import LatencyRank.Text.Alphanumeric
import LatencyRank.Text.Basic

/-!
Which texts are patterns: regular expressions with groups, classes, flags and the repeats `*`, `+`
and `?`. Look-around, back references and counted repeats are not among them, nor is anything that
needs tables of Unicode: classes such as `\d`, edges of words, letters in any case.
-/

namespace LatencyRank.Pattern

structure Flags where
  anyCase : Bool
  unicode : Bool
  /-- White space and comments do not count. -/
  spaced : Bool
deriving DecidableEq, Repr

namespace Flags

def standard : Flags := ⟨false, true, false⟩

/-- The flags that no text is refused for are let pass. -/
def turn (flags : Flags) (on : Bool) : Char → Option Flags
  | 'i' => some { flags with anyCase := on }
  | 'u' => some { flags with unicode := on }
  | 'x' => some { flags with spaced := on }
  | 'm' | 's' | 'U' | 'R' => some flags
  | _ => none

/-- Letters need a table to be found in any case, unless those of ASCII are meant. -/
def needsTable (flags : Flags) : Bool := flags.anyCase && flags.unicode

/-- The flags after `(?`, the mark that ends them and the text behind it. None comes twice, and
only one hyphen may stand there, before a flag. -/
def read? (flags : Flags) (on : Bool) (seen : List Char) :
    List Char → Option (Flags × Char × List Char)
  | [] => none
  | c :: rest =>
    if c = ':' ∨ c = ')' then
      if seen.head? = some '-' ∨ c = ')' ∧ seen = [] then none else some (flags, c, rest)
    else if c ∈ seen then none
    else if c = '-' then read? flags false (c :: seen) rest
    else
      match flags.turn on c with
      | some flags => read? flags on (c :: seen) rest
      | none => none

end Flags

/-- What a backslash and the characters behind it stand for. -/
inductive Piece where
  | char (c : Char)
  | kind (isNegated : Bool)
  | wordEdge
  | textEdge
deriving DecidableEq, Repr

namespace Piece

def ofHex? (size : Nat) (chars : List Char) : Option (Piece × List Char) := do
  let digits ← (chars.take size).mapM Text.hexDigit?
  let code := digits.foldl (fun n digit => 16 * n + digit) 0
  if digits.length = size ∧ code.isValidChar then
    return (.char (Char.ofNat code), chars.drop size)
  else none

def controls : List (Char × Nat) :=
  [('a', 0x07), ('f', 0x0C), ('n', 0x0A), ('r', 0x0D), ('t', 0x09), ('v', 0x0B)]

/-- What stands behind a backslash. The other characters of ASCII stand for themselves, unless they
are letters or digits. -/
def escaped? : List Char → Option (Piece × List Char)
  | [] => none
  | 'x' :: rest => ofHex? 2 rest
  | 'u' :: rest => ofHex? 4 rest
  | 'U' :: rest => ofHex? 8 rest
  | c :: rest =>
    match controls.find? (·.1 = c) with
    | some (_, code) => some (.char (Char.ofNat code), rest)
    | none =>
      if c ∈ ['d', 's', 'w'] then some (.kind false, rest)
      else if c ∈ ['D', 'S', 'W'] then some (.kind true, rest)
      else if c ∈ ['b', 'B', '<', '>'] then some (.wordEdge, rest)
      else if c ∈ ['A', 'z'] then some (.textEdge, rest)
      else if c.toNat < 0x80 ∧ !c.isAlphanum then some (.char c, rest)
      else none

def mayStand (flags : Flags) : Piece → Bool
  | .char _ => !flags.needsTable
  | .kind isNegated => !flags.unicode && !isNegated
  | .wordEdge => !flags.unicode
  | .textEdge => true

def mayBelong (flags : Flags) : Piece → Bool
  | .char c => flags.unicode || decide (c.toNat < 0x80)
  | .kind isNegated => !flags.unicode && !isNegated
  | _ => false

def isRange : Piece → Piece → Bool
  | .char low, .char high => decide (low ≤ high)
  | _, _ => false

end Piece

/-! Classes in brackets, which may hold further classes. -/
section Classes

def classNames : List String :=
  ["alnum", "alpha", "ascii", "blank", "cntrl", "digit", "graph", "lower", "print", "punct",
    "space", "upper", "word", "xdigit"]

/-- The text behind a class that goes by its name, as in `[:alpha:]`, after its bracket. -/
def afterNamed? : List Char → Option (List Char)
  | ':' :: rest =>
    let rest := if rest.head? = some '^' then rest.tail else rest
    match rest.dropWhile (· ≠ ':') with
    | ':' :: ']' :: after =>
      if classNames.any (·.toList = rest.takeWhile (· ≠ ':')) then some after else none
    | _ => none
  | _ => none

/-- The text behind the opening of a class, after its bracket: a caret, then hyphens, and if there
are none of these a closing bracket, which stands for itself. -/
def afterOpening? (flags : Flags) (chars : List Char) : Option (List Char) :=
  let isNegated := chars.head? = some '^'
  let items := if isNegated then chars.tail else chars
  if isNegated ∧ !flags.unicode then none
  else if items.head? = some ']' then some items.tail
  else some (items.dropWhile (· = '-'))

def member? : List Char → Option (Piece × List Char)
  | [] => none
  | '\\' :: rest => Piece.escaped? rest
  | c :: rest => some (.char c, rest)

/-- The text behind one character, class or range of a class. A hyphen before a closing bracket or
another hyphen makes no range. -/
def afterMember? (flags : Flags) (chars : List Char) : Option (List Char) := do
  let (first, rest) ← member? chars
  if rest.head? = some '-' ∧ rest.tail.head? ∉ [some ']', some '-'] then
    let (last, rest) ← member? rest.tail
    if first.isRange last ∧ first.mayBelong flags ∧ last.mayBelong flags then return rest else none
  else if first.mayBelong flags then return rest
  else none

/-- The text behind a class of which so many more brackets are open. Every step takes a character,
so the text's length is fuel enough. -/
def afterClass? (flags : Flags) : Nat → Nat → List Char → Option (List Char)
  | 0, _, _ => none
  | _ + 1, _, [] => none
  | fuel + 1, depth, c :: rest =>
    if flags.spaced ∧ Text.isBlank c then afterClass? flags fuel depth rest
    else if c = ']' then
      match depth with
      | 0 => some rest
      | depth + 1 => afterClass? flags fuel depth rest
    else if c = '[' then
      match afterNamed? rest with
      | some rest => afterClass? flags fuel depth rest
      | none =>
        match afterOpening? flags rest with
        | some rest => afterClass? flags fuel (depth + 1) rest
        | none => none
    else if c ∈ ['&', '-', '~'] ∧ rest.head? = some c then afterClass? flags fuel depth rest.tail
    else
      match afterMember? flags (c :: rest) with
      | some rest => afterClass? flags fuel depth rest
      | none => none

end Classes

/-- How far a pattern was read. -/
structure Reading where
  flags : Flags
  /-- The flags to go back to at the end of every open group, innermost first. -/
  outer : List Flags
  names : List (List Char)
  repeatable : Bool
deriving DecidableEq, Repr

namespace Reading

def opened : Reading := ⟨.standard, [], [], false⟩

def inside (reading : Reading) (flags : Flags) : Reading :=
  { reading with flags, outer := reading.flags :: reading.outer, repeatable := false }

def after (reading : Reading) : Reading := { reading with repeatable := true }

def named? (reading : Reading) (chars : List Char) : Option (Reading × List Char) :=
  let name := chars.takeWhile (· ≠ '>')
  let isFirst (c : Char) := c == '_' || (Text.isAlphanumeric c && !c.isDigit)
  let isLater (c : Char) := ['_', '.', '[', ']'].contains c || Text.isAlphanumeric c
  if name.head?.any isFirst ∧ name.tail.all isLater ∧ name ∉ reading.names
      ∧ name.length < chars.length then
    some ({ reading.inside reading.flags with names := name :: reading.names },
      chars.drop (name.length + 1))
  else none

/-- What stands behind an opening parenthesis. -/
def group? (reading : Reading) : List Char → Option (Reading × List Char)
  | '?' :: 'P' :: '<' :: rest => reading.named? rest
  | '?' :: '<' :: rest => reading.named? rest
  | '?' :: rest =>
    match reading.flags.read? true [] rest with
    | some (flags, ')', rest) => some ({ reading with flags, repeatable := false }, rest)
    | some (flags, _, rest) => some (reading.inside flags, rest)
    | none => none
  | rest => some (reading.inside reading.flags, rest)

def next? (reading : Reading) (c : Char) (rest : List Char) : Option (Reading × List Char) :=
  if reading.flags.spaced ∧ Text.isBlank c then some (reading, rest)
  else if reading.flags.spaced ∧ c = '#' then some (reading, rest.dropWhile (· ≠ '\n'))
  else
    match c with
    | '(' => reading.group? rest
    | ')' =>
      match reading.outer with
      | flags :: outer => some ({ reading.after with flags, outer }, rest)
      | [] => none
    | '|' => some ({ reading with repeatable := false }, rest)
    | '*' | '+' | '?' =>
      if reading.repeatable then some (reading, if rest.head? = some '?' then rest.tail else rest)
      else none
    | '\x7b' => none
    | '^' | '$' => some (reading.after, rest)
    | '.' => if reading.flags.unicode then some (reading.after, rest) else none
    | '[' =>
      if reading.flags.needsTable then none
      else do
        let items ← afterOpening? reading.flags rest
        let rest ← afterClass? reading.flags (items.length + 1) 0 items
        return (reading.after, rest)
    | '\\' =>
      match Piece.escaped? rest with
      | some (piece, rest) =>
        if piece.mayStand reading.flags then some (reading.after, rest) else none
      | none => none
    | _ => if reading.flags.needsTable then none else some (reading.after, rest)

/-- Whether the text can be read to its end with all groups closed there. Every step takes a
character, so the text's length is fuel enough. -/
def succeeds : Nat → Reading → List Char → Bool
  | _, reading, [] => reading.outer.isEmpty
  | 0, _, _ => false
  | fuel + 1, reading, c :: rest =>
    match reading.next? c rest with
    | some (reading, rest) => succeeds fuel reading rest
    | none => false

end Reading

end Pattern

def isPattern (chars : List Char) : Bool := Pattern.Reading.opened.succeeds chars.length chars

end LatencyRank
