import LatencyRank.Decimal

/-!
JSON values as documents hold them: numbers keep their notation apart (whole or decimal), objects
keep the order of their fields and every repetition. `malformed` stands for a part that denotes no
text: a string with half of a surrogate pair or with stray bytes, or an object with such a name.
It can be skipped but never read. A value is written on one line or indented by two spaces a level;
quotes, backslashes and control characters are escaped, all else stands as it is.
-/

namespace LatencyRank

inductive Json where
  | null
  | bool (value : Bool)
  /-- A number without fraction and exponent, except the negative zero. -/
  | integer (value : Int)
  | decimal (value : Decimal)
  | string (value : String)
  | malformed
  | array (items : List Json)
  | object (fields : List (String × Json))

namespace Json

def real (x : Binary64) : Json := .decimal (Decimal.shortest x)

def nat (n : Nat) : Json := .integer n

def optional {α : Type} (f : α → Json) : Option α → Json
  | none => .null
  | some value => f value

def escape (c : Char) : List Char :=
  if c = '"' then ['\\', '"']
  else if c = '\\' then ['\\', '\\']
  else if c = '\x08' then ['\\', 'b']
  else if c = '\t' then ['\\', 't']
  else if c = '\n' then ['\\', 'n']
  else if c = '\x0c' then ['\\', 'f']
  else if c = '\r' then ['\\', 'r']
  else if c.toNat < 0x20 then
    ['\\', 'u', '0', '0', Nat.digitChar (c.toNat / 16), Nat.digitChar (c.toNat % 16)]
  else [c]

def quote (text : String) : List Char := '"' :: (text.toList.flatMap escape ++ ['"'])

def integerChars (n : Int) : List Char :=
  if n < 0 then '-' :: Nat.toDigits 10 n.natAbs else Nat.toDigits 10 n.natAbs

/-- The text of a value without parts; a malformed part has none and shows as `null`. -/
def scalar : Json → List Char
  | .bool true => ['t', 'r', 'u', 'e']
  | .bool false => ['f', 'a', 'l', 's', 'e']
  | .integer n => integerChars n
  | .decimal d => d.chars Decimal.layout
  | .string s => quote s
  | _ => ['n', 'u', 'l', 'l']

mutual

def compactChars : Json → List Char
  | .array items => '[' :: compactItems false items
  | .object fields => '{' :: compactFields false fields
  | value => scalar value

/-- The rest of an array; `more` tells that an item stands before it. -/
def compactItems (more : Bool) : List Json → List Char
  | [] => [']']
  | item :: rest =>
    (if more then [','] else []) ++ compactChars item ++ compactItems true rest

def compactFields (more : Bool) : List (String × Json) → List Char
  | [] => ['}']
  | (name, value) :: rest =>
    (if more then [','] else []) ++ quote name ++ ':' :: compactChars value ++ compactFields true rest

end

def newLine (level : Nat) : List Char := '\n' :: List.replicate (2 * level) ' '

mutual

def prettyChars (level : Nat) : Json → List Char
  | .array [] => ['[', ']']
  | .object [] => ['{', '}']
  | .array items => '[' :: prettyItems (level + 1) false items
  | .object fields => '{' :: prettyFields (level + 1) false fields
  | value => scalar value

def prettyItems (level : Nat) (more : Bool) : List Json → List Char
  | [] => newLine (level - 1) ++ [']']
  | item :: rest =>
    (if more then [','] else []) ++ newLine level ++ prettyChars level item
      ++ prettyItems level true rest

def prettyFields (level : Nat) (more : Bool) : List (String × Json) → List Char
  | [] => newLine (level - 1) ++ ['}']
  | (name, value) :: rest =>
    (if more then [','] else []) ++ newLine level ++ quote name ++ ':' :: ' '
      :: prettyChars level value ++ prettyFields level true rest

end

def compact (value : Json) : String := String.ofList (compactChars value)

def pretty (value : Json) : String := String.ofList (prettyChars 0 value)

end Json

end LatencyRank
