import LatencyRank.Json.Basic

/-!
Reading typed data out of JSON. A record is written as an object, whose unknown fields are skipped
and whose known ones may stand once, or as an array of its fields in order, which may stop early.
Scalars are never converted: a whole number is not read from `1.0`, nor a truth value from `0`.
-/

namespace LatencyRank.Json

def bool? : Json → Option Bool
  | .bool value => some value
  | _ => none

def string? : Json → Option String
  | .string value => some value
  | _ => none

def natUpTo? (limit : Nat) : Json → Option Nat
  | .integer n => if 0 ≤ n ∧ n ≤ limit then some n.toNat else none
  | _ => none

def signed? : Json → Option Int
  | .integer n => if Signed.InRange n then some n else none
  | _ => none

/-- Any number that rounds to a finite double. -/
def real? (value : Json) : Option Binary64 :=
  let read : Option Binary64 := match value with
    | .integer n => some (.ofInt n)
    | .decimal d => some d.toBinary64
    | _ => none
  read.filter Binary64.isFinite

/-- One of a few names, as a string or as an object with the name alone. -/
def variant? : Json → Option String
  | .string name => some name
  | .object [(name, .null)] => some name
  | _ => none

/-- `null` stands for nothing. -/
def optional? {α : Type} (decode : Json → Option α) : Json → Option (Option α)
  | .null => some none
  | value => (decode value).map some

def array? : Json → Option (List Json)
  | .array items => some items
  | _ => none

def listOf? {α : Type} (decode : Json → Option α) (value : Json) : Option (List α) :=
  value.array?.bind (List.mapM decode)

/-- What a record's text gives for its fields. -/
abbrev Members := List (String × Json)

/-- The fields of a record that has the given names, by name or by position. -/
def members? (names : List String) : Json → Option Members
  | .object fields =>
    let known := fields.filter fun field => field.1 ∈ names
    if (known.map Prod.fst).Nodup then some known else none
  | .array items => if items.length ≤ names.length then some (names.zip items) else none
  | _ => none

def Members.required {α : Type} (members : Members) (name : String) (decode : Json → Option α) :
    Option α :=
  (members.lookup name).bind decode

def Members.orElse {α : Type} (members : Members) (name : String) (default : α)
    (decode : Json → Option α) : Option α :=
  match members.lookup name with
  | some value => decode value
  | none => some default

end LatencyRank.Json
