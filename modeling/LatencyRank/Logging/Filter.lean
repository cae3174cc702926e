import LatencyRank.Logging.Pattern
import LatencyRank.Total

/-!
Which log events are written. A filter is a list of directives between commas: a level, a target
with its level, or a target alone, which lets everything through. Brackets may tell the span or a
field that is spoken of. Of the directives whose target starts the event's target and whose field
the event has, the closest decides; an event that none speaks of is not written.
-/

namespace LatencyRank

inductive LogLevel where
  | off
  | error
  | warn
  | info
  | debug
  | trace
deriving DecidableEq, Repr

namespace LogLevel

def all : List LogLevel := [off, error, warn, info, debug, trace]

def name : LogLevel → String
  | off => "OFF"
  | error => "ERROR"
  | warn => "WARN"
  | info => "INFO"
  | debug => "DEBUG"
  | trace => "TRACE"

def rank : LogLevel → Nat
  | off => 0
  | error => 1
  | warn => 2
  | info => 3
  | debug => 4
  | trace => 5

/-- A number, which may have a plus sign. -/
def number? (chars : List Char) : Option Nat :=
  let digits := match chars with
    | '+' :: rest => rest
    | _ => chars
  if digits ≠ [] ∧ digits.all Char.isDigit then
    some (digits.foldl (fun n c => 10 * n + (c.toNat - '0'.toNat)) 0)
  else none

/-- A level by its number or by its name in any case. -/
def ofChars? (chars : List Char) : Option LogLevel :=
  match number? chars with
  | some n => all.find? fun level => level.rank = n
  | none => all.find? fun level => level.name.toList = chars.map Char.toUpper

end LogLevel

/-- A field that a directive asks for: its name, and whether it asks for a value too. -/
structure LogField where
  name : String
  hasValue : Bool
deriving DecidableEq, Repr

namespace LogField

def isSign (c : Char) : Bool := c == '+' || c == '-'

/-- A number that may have a point and an exponent, with at least one digit before the latter. -/
def isDecimal (chars : List Char) : Bool :=
  let whole := chars.takeWhile Char.isDigit
  let rest := chars.drop whole.length
  let fraction := if rest.head? = some '.' then rest.tail.takeWhile Char.isDigit else []
  let rest := if rest.head? = some '.' then rest.tail.drop fraction.length else rest
  !(whole ++ fraction).isEmpty &&
    match rest with
    | [] => true
    | mark :: power =>
      let digits := if power.head?.any isSign then power.tail else power
      (mark == 'e' || mark == 'E') && !digits.isEmpty && digits.all Char.isDigit

/-- Numbers may have a sign, and infinity and what is no number count among them. -/
def isNumber (chars : List Char) : Bool :=
  let body := if chars.head?.any isSign then chars.tail else chars
  let word := String.ofList (body.map Char.toLower)
  isDecimal body || word == "inf" || word == "infinity" || word == "nan"

/-- A name, or a name and a value, which is a number or a pattern. A second equals sign ends the
value. -/
def ofChars? (chars : List Char) : Option LogField :=
  match chars.splitOn '=' with
  | [] => none
  | [name] => some ⟨String.ofList name, false⟩
  | name :: value :: _ =>
    if isNumber value || isPattern value then some ⟨String.ofList name, true⟩ else none

end LogField

structure LogDirective where
  target : List Char
  span : Option (List Char)
  field : Option LogField
  level : LogLevel
deriving DecidableEq, Repr

namespace LogDirective

def ofLevel (level : LogLevel) : LogDirective := ⟨[], none, none, level⟩

def size : List Char → Nat := totalOf Char.utf8Size

/-- The text from a place on, told by its distance from the beginning. -/
def behind? : Nat → List Char → Option (List Char)
  | 0, chars => some chars
  | _ + 1, [] => none
  | distance + 1, c :: rest =>
    if c.utf8Size ≤ distance + 1 then behind? (distance + 1 - c.utf8Size) rest else none

def piece? (start size : Nat) (chars : List Char) : Option (List Char) := do
  let tail ← behind? start chars
  let rest ← behind? size tail
  return tail.take (tail.length - rest.length)

/-- Letters, numbers and the three joints may begin a directive. -/
def mayBegin (c : Char) : Bool := Text.isAlphanumeric c || c == '-' || c == ':' || c == '_'

/-- The level that stands at a place of the text, or all levels if nothing does. -/
def levelAt? (text : List Char) (start : Nat) : Option LogLevel := do
  let level ← behind? start text
  if level = [] then return .trace else LogLevel.ofChars? level

/-- The directive with the level behind its equals sign, which is left out if nothing is left. -/
def ended? (d : LogDirective) (text : List Char) (start : Nat) : List Char → Option LogDirective
  | [] => some { d with level := .trace }
  | '=' :: _ => (levelAt? text (start + 1)).map fun level => { d with level }
  | _ => none

def withField? (d : LogDirective) (text : List Char) (start : Nat) (rest : List Char) :
    Option LogDirective := do
  let field := rest.takeWhile (· ≠ '\x7d')
  let stop := start + size field
  match rest.drop field.length with
  | _ :: ']' :: rest =>
    let field ← piece? start (size field) text
    if field = [] then none
    else
      let field ← LogField.ofChars? field
      ended? { d with field := some field } text (stop + 2) rest
  | _ => none

/-- The span between brackets, whose name may be left out before a field, and the rest of the
directive. -/
def withSpan? (d : LogDirective) (text : List Char) (start : Nat) (rest : List Char) :
    Option LogDirective := do
  let name := rest.takeWhile fun c => c ≠ ']' && c ≠ '\x7b'
  let stop := start + size name
  match rest.drop name.length with
  | [] => none
  | mark :: rest =>
    let name ← piece? start (size name) text
    if mark = ']' then ended? { d with span := some name } text (stop + 1) rest
    else withField? { d with span := if name = [] then none else some name } text (stop + 1) rest

/-- One directive. White space around it is passed over when its parts are looked for, yet the
parts are then taken from the whole text at the distances that were found without it. -/
def ofChars? (text : List Char) : Option LogDirective := do
  match Text.dropEnd Text.isBlank (text.dropWhile Text.isBlank) with
  | [] => none
  | '[' :: rest => (ofLevel .trace).withSpan? text 1 rest
  | first :: rest =>
    if !mayBegin first then none
    else
      let target := first :: rest.takeWhile fun c => c ≠ '=' && c ≠ '['
      let stop := size target
      match (first :: rest).drop target.length with
      | [] =>
        match LogLevel.ofChars? text with
        | some level => return ofLevel level
        | none => return ⟨text, none, none, .trace⟩
      | mark :: rest =>
        let d := { ofLevel .trace with target := ← piece? 0 stop text }
        if mark = '[' then d.withSpan? text (stop + 1) rest
        else d.ended? text stop (mark :: rest)

/-- A span or the value of a field makes a directive one about spans, and events outside of them
are none of its business. -/
def spansOnly (d : LogDirective) : Bool := d.span.isSome || d.field.any (·.hasValue)

def fieldName (d : LogDirective) : String := (d.field.map LogField.name).getD ""

/-- Whether a directive is at least as close to an event as another one that speaks of it: by the
longer target, then by the field, of which the greater name goes first. -/
def closeAs (d other : LogDirective) : Bool :=
  if d.target.length = other.target.length then decide (other.fieldName ≤ d.fieldName)
  else decide (other.target.length ≤ d.target.length)

end LogDirective

abbrev LogFilter := List LogDirective

structure LogEvent where
  level : LogLevel
  target : String
  fields : List String
deriving DecidableEq, Repr

def LogDirective.concerns (d : LogDirective) (event : LogEvent) : Bool :=
  !d.spansOnly && d.target.isPrefixOf event.target.toList
    && d.field.all fun field => event.fields.contains field.name

namespace LogFilter

/-- The text's directives. A text without any lets errors through. -/
def ofString? (text : String) : Option LogFilter := do
  let parts := (text.toList.splitOn ',').filter (· ≠ [])
  let directives ← parts.mapM LogDirective.ofChars?
  return if directives.isEmpty then [.ofLevel .error] else directives

/-- Of two directives the closer one, and of equally close ones the later. -/
def closer (best : Option LogDirective) (d : LogDirective) : Option LogDirective :=
  match best with
  | some b => if d.closeAs b then some d else best
  | none => some d

def allows (filter : LogFilter) (event : LogEvent) : Bool :=
  match (filter.filter (·.concerns event)).foldl closer none with
  | some d => decide (event.level.rank ≤ d.level.rank)
  | none => false

/-- The filter in force: the environment's, else the configured one, else `info`, each if it can be
read. -/
def choose (environment : Option String) (configured : String) : LogFilter :=
  match environment.bind ofString? with
  | some filter => filter
  | none =>
    match ofString? (Text.trim configured) with
    | some filter => filter
    | none => [.ofLevel .info]

end LogFilter

end LatencyRank
