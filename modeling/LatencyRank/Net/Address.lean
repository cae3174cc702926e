import LatencyRank.Text.Basic

/-!
Network addresses in their usual notations. Parts of an IPv4 address have no leading zeros. An IPv6
address is eight groups of up to four digits; one `::` stands for at least one group of zeros, and
the last two groups may be written as an IPv4 address. Nothing may follow: no port and no zone.
-/

namespace LatencyRank

inductive Address where
  | v4 (parts : List Nat)
  | v6 (groups : List Nat)
deriving DecidableEq, Repr

namespace Address

/-- The digits at the start, their value and the rest: one digit at least and `limit` at most. -/
def number? (radix limit : Nat) (chars : List Char) : Option (List Nat × Nat × List Char) :=
  let isDigit (c : Char) : Bool := (Text.hexDigit? c).any fun d => decide (d < radix)
  let digits := (chars.takeWhile isDigit).filterMap Text.hexDigit?
  if digits = [] ∨ limit < digits.length then none
  else some (digits, digits.foldl (fun n d => radix * n + d) 0, chars.dropWhile isDigit)

def part? (chars : List Char) : Option (Nat × List Char) := do
  let (digits, value, rest) ← number? 10 3 chars
  if value < 256 ∧ (digits.length = 1 ∨ digits.head? ≠ some 0) then some (value, rest) else none

def take? (c : Char) : List Char → Option (List Char)
  | first :: rest => if first = c then some rest else none
  | [] => none

def v4? (chars : List Char) : Option (List Nat × List Char) := do
  let (a, rest) ← part? chars
  let (b, rest) ← part? (← take? '.' rest)
  let (c, rest) ← part? (← take? '.' rest)
  let (d, rest) ← part? (← take? '.' rest)
  return ([a, b, c, d], rest)

def group? (chars : List Char) : Option (Nat × List Char) := do
  let (_, value, rest) ← number? 16 4 chars
  return (value, rest)

/-- As many groups as there are, up to a number, and whether the last two were an IPv4 address. -/
def groups (first : Bool) : Nat → List Char → List Nat × Bool × List Char
  | 0, chars => ([], false, chars)
  | room + 1, chars =>
    match if first then some chars else take? ':' chars with
    | none => ([], false, chars)
    | some start =>
      match if room = 0 then none else v4? start with
      | some ([a, b, c, d], rest) => ([256 * a + b, 256 * c + d], true, rest)
      | _ =>
        match group? start with
        | none => ([], false, chars)
        | some (group, rest) =>
          let (more, embedded, rest) := groups false room rest
          (group :: more, embedded, rest)

def v6? (chars : List Char) : Option (List Nat × List Char) :=
  let (head, embedded, rest) := groups true 8 chars
  if head.length = 8 then some (head, rest)
  else if embedded then none
  else do
    let rest ← take? ':' (← take? ':' rest)
    let (tail, _, rest) := groups true (7 - head.length) rest
    return (head ++ List.replicate (8 - head.length - tail.length) 0 ++ tail, rest)

def ofString? (text : String) : Option Address :=
  match v4? text.toList, v6? text.toList with
  | some (parts, []), _ => some (.v4 parts)
  | _, some (groups, []) => some (.v6 groups)
  | _, _ => none

def localhost : Address := .v4 [127, 0, 0, 1]

end Address

end LatencyRank
