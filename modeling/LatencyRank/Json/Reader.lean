import LatencyRank.Json.Basic
import LatencyRank.Text.Basic

/-!
Reading JSON, strictly by its grammar: a machine that takes one sign at a time and keeps the open
brackets on a stack, so depth is no limit. Stray bytes are allowed inside quotes only, where they
make the string `malformed`; so does half of a surrogate pair. Control characters inside quotes,
comments, leading zeros, trailing commas and anything after the value are refused.
-/

namespace LatencyRank.Json

/-! A string literal. `high` holds the first half of a surrogate pair whose second half is due. -/
section Quoted

inductive QuotedMode where
  | plain
  | escape
  | hex (left value : Nat)

structure Quoted where
  /-- What was read, last character first; `none` once it is no text. -/
  chars : Option (List Char)
  high : Option Nat
  mode : QuotedMode

inductive QuotedStep where
  | more (quoted : Quoted)
  | closed (text : Option String)

def Quoted.opened : Quoted := ⟨some [], none, .plain⟩

def Quoted.push (q : Quoted) (c : Char) : Quoted :=
  match q.high with
  | none => ⟨q.chars.map (c :: ·), none, .plain⟩
  | some _ => ⟨none, none, .plain⟩

/-- Takes a 16-bit unit: a character, or one half of one. -/
def Quoted.pushUnit (q : Quoted) (unit : Nat) : Quoted :=
  let isHigh := 0xD800 ≤ unit ∧ unit < 0xDC00
  let isLow := 0xDC00 ≤ unit ∧ unit < 0xE000
  match q.high with
  | some high =>
    if isLow then
      let c := Char.ofNat (0x10000 + (high - 0xD800) * 0x400 + (unit - 0xDC00))
      ⟨q.chars.map (c :: ·), none, .plain⟩
    else ⟨none, none, .plain⟩
  | none =>
    if isHigh then ⟨q.chars, some unit, .plain⟩
    else if isLow then ⟨none, none, .plain⟩
    else q.push (Char.ofNat unit)

def Quoted.text (q : Quoted) : Option String :=
  match q.high with
  | none => q.chars.map fun chars => String.ofList chars.reverse
  | some _ => none

def escaped? : Char → Option Char
  | '"' => some '"'
  | '\\' => some '\\'
  | '/' => some '/'
  | 'b' => some '\x08'
  | 'f' => some '\x0c'
  | 'n' => some '\n'
  | 'r' => some '\r'
  | 't' => some '\t'
  | _ => none

def Quoted.next (q : Quoted) (sign : Option Char) : Option QuotedStep :=
  match q.mode, sign with
  | .plain, none => some (.more ⟨none, none, .plain⟩)
  | .plain, some c =>
    if c = '"' then some (.closed q.text)
    else if c = '\\' then some (.more { q with mode := .escape })
    else if c.toNat < 0x20 then none
    else some (.more (q.push c))
  | .escape, some c =>
    if c = 'u' then some (.more { q with mode := .hex 3 0 })
    else (escaped? c).map fun c => .more (q.push c)
  | .hex left value, some c =>
    (Text.hexDigit? c).map fun digit =>
      let value := 16 * value + digit
      match left with
      | 0 => .more (q.pushUnit value)
      | left + 1 => .more { q with mode := .hex left value }
  | _, none => none

end Quoted

/-! A number. It ends where the grammar lets it go no further. -/
section Numeral

inductive NumeralPhase where
  | sign
  | zero
  | whole
  | point
  | fraction
  | mark
  | markSign
  | power

structure Numeral where
  phase : NumeralPhase
  negative : Bool
  digits : Nat
  /-- How many of the digits stand after the point. -/
  places : Nat
  powerNegative : Bool
  power : Nat

def Numeral.opened (negative : Bool) : Numeral := ⟨.sign, negative, 0, 0, false, 0⟩

def digit? (c : Char) : Option Nat :=
  if '0' ≤ c ∧ c ≤ '9' then some (c.toNat - '0'.toNat) else none

def Numeral.next (n : Numeral) (c : Char) : Option Numeral :=
  let isMark := c = 'e' ∨ c = 'E'
  let withPower (digit : Nat) : Numeral := { n with phase := .power, power := 10 * n.power + digit }
  match n.phase, digit? c with
  | .sign, some digit => some { n with phase := if digit = 0 then .zero else .whole, digits := digit }
  | .whole, some digit => some { n with digits := 10 * n.digits + digit }
  | .point, some digit | .fraction, some digit =>
    some { n with phase := .fraction, digits := 10 * n.digits + digit, places := n.places + 1 }
  | .mark, some digit | .markSign, some digit | .power, some digit => some (withPower digit)
  | .zero, none | .whole, none =>
    if c = '.' then some { n with phase := .point }
    else if isMark then some { n with phase := .mark }
    else none
  | .fraction, none => if isMark then some { n with phase := .mark } else none
  | .mark, none =>
    if c = '+' ∨ c = '-' then some { n with phase := .markSign, powerNegative := c = '-' } else none
  | _, _ => none

/-- The number, if the grammar lets it end here. -/
def Numeral.value? (n : Numeral) : Option Json :=
  let power : Int := if n.powerNegative then -n.power else n.power
  let decimal : Json := .decimal ⟨n.negative, n.digits, power - n.places⟩
  match n.phase with
  | .zero => some (if n.negative then decimal else .integer 0)
  | .whole => some (.integer (if n.negative then -n.digits else n.digits))
  | .fraction | .power => some decimal
  | _ => none

end Numeral

/-! The whole document. -/
section Document

/-- An open bracket with what it holds so far, last first. An object also has the name whose value
is due. -/
inductive Frame where
  | array (items : List Json)
  | object (fields : List (Option String × Json)) (name : Option String)

inductive Place where
  | value
  | firstItem
  | firstName
  | name
  | colon
  | word (rest : List Char) (value : Json)
  | numeral (numeral : Numeral)
  | quoted (isName : Bool) (quoted : Quoted)
  | after (value : Json)

structure Reader where
  stack : List Frame
  place : Place

def isSpace (c : Char) : Bool := c == ' ' || c == '\t' || c == '\n' || c == '\r'

def ofText? : Option String → Json
  | some text => .string text
  | none => .malformed

/-- The object of fields given last first; one name without text spoils it. -/
def close (fields : List (Option String × Json)) : Json :=
  let named := fields.filterMap fun (name, value) => name.map (·, value)
  if named.length = fields.length then .object named.reverse else .malformed

def Reader.start (stack : List Frame) (c : Char) : Option Reader :=
  if isSpace c then some ⟨stack, .value⟩
  else match c with
    | '"' => some ⟨stack, .quoted false .opened⟩
    | '[' => some ⟨.array [] :: stack, .firstItem⟩
    | '{' => some ⟨.object [] none :: stack, .firstName⟩
    | 't' => some ⟨stack, .word ['r', 'u', 'e'] (.bool true)⟩
    | 'f' => some ⟨stack, .word ['a', 'l', 's', 'e'] (.bool false)⟩
    | 'n' => some ⟨stack, .word ['u', 'l', 'l'] .null⟩
    | '-' => some ⟨stack, .numeral (.opened true)⟩
    | _ => ((Numeral.opened false).next c).map fun n => ⟨stack, .numeral n⟩

def Reader.goOn (stack : List Frame) (value : Json) (c : Char) : Option Reader :=
  if isSpace c then some ⟨stack, .after value⟩
  else match stack, c with
    | .array items :: stack, ',' => some ⟨.array (value :: items) :: stack, .value⟩
    | .array items :: stack, ']' => some ⟨stack, .after (.array (value :: items).reverse)⟩
    | .object fields name :: stack, ',' =>
      some ⟨.object ((name, value) :: fields) none :: stack, .name⟩
    | .object fields name :: stack, '}' => some ⟨stack, .after (close ((name, value) :: fields))⟩
    | _, _ => none

def Reader.quoted (stack : List Frame) (isName : Bool) (text : Option String) : Option Reader :=
  if isName then
    match stack with
    | .object fields _ :: stack => some ⟨.object fields text :: stack, .colon⟩
    | _ => none
  else some ⟨stack, .after (ofText? text)⟩

def Reader.next (r : Reader) (sign : Option Char) : Option Reader :=
  match r.place, sign with
  | .quoted isName q, _ =>
    match q.next sign with
    | some (.more q) => some { r with place := .quoted isName q }
    | some (.closed text) => Reader.quoted r.stack isName text
    | none => none
  | _, none => none
  | .value, some c => Reader.start r.stack c
  | .firstItem, some c =>
    if isSpace c then some r
    else if c = ']' then some ⟨r.stack.drop 1, .after (.array [])⟩
    else Reader.start r.stack c
  | .firstName, some c =>
    if isSpace c then some r
    else if c = '}' then some ⟨r.stack.drop 1, .after (.object [])⟩
    else if c = '"' then some ⟨r.stack, .quoted true .opened⟩
    else none
  | .name, some c =>
    if isSpace c then some r
    else if c = '"' then some ⟨r.stack, .quoted true .opened⟩
    else none
  | .colon, some c =>
    if isSpace c then some r else if c = ':' then some ⟨r.stack, .value⟩ else none
  | .word [] value, some c => Reader.goOn r.stack value c
  | .word (due :: rest) value, some c =>
    if c = due then some ⟨r.stack, if rest.isEmpty then .after value else .word rest value⟩ else none
  | .numeral n, some c =>
    match n.next c with
    | some n => some ⟨r.stack, .numeral n⟩
    | none => n.value?.bind fun value => Reader.goOn r.stack value c
  | .after value, some c => Reader.goOn r.stack value c

/-- The document's value, if it may end here. -/
def Reader.finish (r : Reader) : Option Json :=
  match r.stack, r.place with
  | [], .after value => some value
  | [], .numeral n => n.value?
  | _, _ => none

def ofSigns? (signs : List (Option Char)) : Option Json :=
  (signs.foldlM Reader.next ⟨[], .value⟩).bind Reader.finish

def ofString? (text : String) : Option Json := ofSigns? (text.toList.map some)

def ofBytes? (bytes : ByteArray) : Option Json := ofSigns? (Text.signs bytes)

end Document

end LatencyRank.Json
