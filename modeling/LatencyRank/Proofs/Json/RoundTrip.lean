import Mathlib
import LatencyRank.Proofs.Json.Numeral

/-!
A document that is written is read back. The reader goes through a value's text and stands behind the
value; behind a number it waits for what ends the number. An array and an object keep what was read of
them in a frame on the stack, so the induction over the value's parts says what each part leaves on top
of any stack.
-/

namespace LatencyRank.Json

mutual

/-- What the text of a value is read as: decimals as their text spells them, and `null` for a part
that denotes no text. -/
def reread : Json → Json
  | .decimal d => .decimal d.reread
  | .malformed => .null
  | .array items => .array (rereadItems items)
  | .object fields => .object (rereadFields fields)
  | value => value

def rereadItems : List Json → List Json
  | [] => []
  | item :: rest => reread item :: rereadItems rest

def rereadFields : List (String × Json) → List (String × Json)
  | [] => []
  | (name, value) :: rest => (name, reread value) :: rereadFields rest

end

theorem rereadItems_eq (items : List Json) : rereadItems items = items.map reread := by
  induction items with
  | nil => rfl
  | cons item rest ih => rw [rereadItems, ih, List.map_cons]

def Plain : Json → Prop
  | .array _ | .object _ => False
  | _ => True

section Behind

/-- The reader stands behind a value. Behind a number it does not know yet that the number is over. -/
inductive Behind (stack : List Frame) (value : Json) : Reader → Prop where
  | after : Behind stack value ⟨stack, .after value⟩
  | numeral {n : Numeral} (reads : n.value? = some value) : Behind stack value ⟨stack, .numeral n⟩

variable {stack : List Frame} {value : Json} {r : Reader} {c : Char} {text : List Char}

theorem numeral_next_eq_none (n : Numeral) (ends : c = ',' ∨ c = '\n') : n.next c = none := by
  have comma : digit? ',' = none := by decide
  have line : digit? '\n' = none := by decide
  rcases ends with rfl | rfl <;> cases phase : n.phase <;> simp [Numeral.next, phase, comma, line]

theorem Behind.next (behind : Behind stack value r) (ends : c = ',' ∨ c = '\n') :
    r.next (some c) = Reader.goOn stack value c := by
  cases behind with
  | after => rfl
  | @numeral n reads =>
    simp only [Reader.next, numeral_next_eq_none n ends, reads]
    rfl

theorem Behind.finish (behind : Behind [] value r) : r.finish = some value := by
  cases behind with
  | after => rfl
  | numeral reads => exact reads

end Behind

section Blank

variable {r : Reader} {text : List Char}

/-- White space changes nothing. -/
def Reader.Idle (r : Reader) : Prop := ∀ c, isSpace c = true → r.next (some c) = some r

theorem through_blank (idle : r.Idle) (blank : ∀ c ∈ text, isSpace c = true) (rest : List Char) :
    r.through (text ++ rest) = r.through rest := by
  induction text with
  | nil => rfl
  | cons c text ih =>
    rw [List.cons_append, through_step (idle c (blank c List.mem_cons_self))]
    exact ih fun other member => blank other (List.mem_cons_of_mem c member)

theorem isSpace_newLine (level : Nat) : ∀ c ∈ newLine level, isSpace c = true := by
  intro c member
  rcases List.mem_cons.mp member with rfl | spaces
  · rfl
  · rw [List.eq_of_mem_replicate spaces]
    rfl

theorem through_newLine (idle : r.Idle) (level : Nat) (rest : List Char) :
    r.through (newLine level ++ rest) = r.through rest :=
  through_blank idle (isSpace_newLine level) rest

variable (stack : List Frame)

theorem idle_value : (⟨stack, .value⟩ : Reader).Idle := fun c space => by
  simp [Reader.next, Reader.start, space]

theorem idle_firstItem : (⟨stack, .firstItem⟩ : Reader).Idle := fun c space => by
  simp [Reader.next, space]

theorem idle_firstName : (⟨stack, .firstName⟩ : Reader).Idle := fun c space => by
  simp [Reader.next, space]

theorem idle_name : (⟨stack, .name⟩ : Reader).Idle := fun c space => by
  simp [Reader.next, space]

theorem idle_after (value : Json) : (⟨stack, .after value⟩ : Reader).Idle := fun c space => by
  simp [Reader.next, Reader.goOn, space]

theorem Behind.through_newLine {stack : List Frame} {value : Json} (behind : Behind stack value r)
    (level : Nat) (rest : List Char) :
    r.through (newLine level ++ rest) = (⟨stack, .after value⟩ : Reader).through rest := by
  have ends : r.next (some '\n') = some ⟨stack, .after value⟩ := behind.next (.inr rfl)
  rw [newLine, List.cons_append, through_step ends]
  refine through_blank (idle_after stack value) (fun c member => ?_) rest
  rw [List.eq_of_mem_replicate member]
  rfl

end Blank

section Scalars

variable (stack : List Frame) {negative : Bool} {text : List Char} {value : Json}

theorem isSpace_of_isDigit {c : Char} (digit : c.isDigit = true) : isSpace c = false := by
  cases space : isSpace c with
  | false => rfl
  | true =>
    simp only [isSpace, Bool.or_eq_true, beq_iff_eq] at space
    rcases space with ((rfl | rfl) | rfl) | rfl <;> exact absurd digit (by decide)

theorem start_of_isDigit {c : Char} (digit : c.isDigit = true) :
    Reader.start stack c = ((Numeral.opened false).next c).map fun n => ⟨stack, .numeral n⟩ := by
  unfold Reader.start
  rw [isSpace_of_isDigit digit]
  simp only [Bool.false_eq_true, if_false]
  split <;> first | rfl | exact absurd digit (by decide)

theorem numeral_cons {n n' : Numeral} {c : Char} {rest : List Char}
    (reads : n.through (c :: rest) = some n') :
    ∃ next, n.next c = some next ∧ next.through rest = some n' := by
  cases first : n.next c with
  | none =>
    rw [Numeral.through, List.foldlM_cons, first] at reads
    cases reads
  | some next => exact ⟨next, rfl, (numeral_step first).symm.trans reads⟩

theorem through_numeral {n n' : Numeral} (reads : n.through text = some n') :
    (⟨stack, .numeral n⟩ : Reader).through text = some ⟨stack, .numeral n'⟩ := by
  induction text generalizing n with
  | nil =>
    cases reads
    rfl
  | cons c rest ih =>
    obtain ⟨next, first, reads⟩ := numeral_cons reads
    have goes : (⟨stack, .numeral n⟩ : Reader).next (some c) = some ⟨stack, .numeral next⟩ := by
      simp only [Reader.next, first]
    rw [through_step goes, ih reads]

theorem through_spelled (spells : Spells negative text value) :
    ∃ r, Behind stack value r ∧ (⟨stack, .value⟩ : Reader).through
      ((if negative then ['-'] else []) ++ text) = some r := by
  obtain ⟨⟨c, rest, rfl, digit⟩, n, reads, value'⟩ := spells
  refine ⟨⟨stack, .numeral n⟩, .numeral value', ?_⟩
  cases negative with
  | true => exact through_numeral stack reads
  | false =>
    obtain ⟨next, first, reads⟩ := numeral_cons reads
    have starts : (⟨stack, .value⟩ : Reader).next (some c) = some ⟨stack, .numeral next⟩ := by
      simp only [Reader.next, start_of_isDigit stack digit, first, Option.map_some]
    exact (through_step starts).trans (through_numeral stack reads)

theorem spells_signed (n : Int) :
    Spells (decide (n < 0)) (Nat.toDigits 10 n.natAbs) (.integer n) := by
  have spelled := spells_integer (decide (n < 0)) n.natAbs fun below => by
    have below := of_decide_eq_true below
    omega
  rwa [sign_natAbs] at spelled

theorem integerChars_eq (n : Int) :
    integerChars n = (if decide (n < 0) = true then ['-'] else []) ++ Nat.toDigits 10 n.natAbs := by
  unfold integerChars
  by_cases below : n < 0
  · rw [if_pos below, if_pos (decide_eq_true below)]
    rfl
  · rw [if_neg below, if_neg (by simpa using below)]
    rfl

theorem through_quote (text : String) (rest : List Char) :
    (⟨stack, .value⟩ : Reader).through (quote text ++ rest) =
      (⟨stack, .after (.string text)⟩ : Reader).through rest := by
  have opens : (⟨stack, .value⟩ : Reader).next (some '"') = some (inside stack false []) := rfl
  rw [quote, List.cons_append, through_step opens, through_trans (through_text stack false text)]
  rfl

theorem through_scalar {value : Json} (plain : value.Plain) :
    ∃ r, Behind stack value.reread r ∧ (⟨stack, .value⟩ : Reader).through (scalar value) = some r := by
  cases value with
  | null => exact ⟨_, .after, rfl⟩
  | bool value => cases value <;> exact ⟨_, .after, rfl⟩
  | malformed => exact ⟨_, .after, rfl⟩
  | array _ | object _ => exact plain.elim
  | string text =>
    refine ⟨_, .after, ?_⟩
    have reads := through_quote stack text []
    rwa [List.append_nil] at reads
  | integer n =>
    obtain ⟨r, behind, reads⟩ := through_spelled stack (spells_signed n)
    exact ⟨r, behind, by rw [scalar, integerChars_eq, reads]⟩
  | decimal d =>
    obtain ⟨text, same, spelled⟩ := spells_decimal d
    obtain ⟨r, behind, reads⟩ := through_spelled stack spelled
    exact ⟨r, behind, by rw [scalar, same, reads]⟩

end Scalars

section Values

/-- What a value starts with: neither white space nor a closing bracket. -/
def Opens (text : List Char) : Prop := ∃ c rest, text = c :: rest ∧ isSpace c = false ∧ c ≠ ']'

theorem opens_spelled {negative : Bool} {text : List Char} {value : Json}
    (spells : Spells negative text value) : Opens ((if negative then ['-'] else []) ++ text) := by
  obtain ⟨c, rest, rfl, digit⟩ := spells.head
  cases negative with
  | true => exact ⟨'-', _, rfl, rfl, by decide⟩
  | false =>
    refine ⟨c, rest, rfl, isSpace_of_isDigit digit, ?_⟩
    rintro rfl
    exact absurd digit (by decide)

theorem opens_scalar (value : Json) : Opens (scalar value) := by
  cases value with
  | bool value => cases value <;> exact ⟨_, _, rfl, rfl, by decide⟩
  | integer n =>
    rw [scalar, integerChars_eq]
    exact opens_spelled (spells_signed n)
  | decimal d =>
    obtain ⟨text, same, spelled⟩ := spells_decimal d
    rw [scalar, same]
    exact opens_spelled spelled
  | _ => exact ⟨_, _, rfl, rfl, by decide⟩

theorem prettyChars_array (level : Nat) (item : Json) (rest : List Json) :
    prettyChars level (.array (item :: rest)) =
      '[' :: (newLine (level + 1) ++ prettyChars (level + 1) item
        ++ prettyItems (level + 1) true rest) := by
  rw [prettyChars, prettyItems]
  · rfl
  · simp

theorem prettyChars_object (level : Nat) (name : String) (value : Json) (rest : List (String × Json)) :
    prettyChars level (.object ((name, value) :: rest)) =
      '{' :: (newLine (level + 1) ++ quote name ++ ':' :: ' ' :: prettyChars (level + 1) value
        ++ prettyFields (level + 1) true rest) := by
  rw [prettyChars, prettyFields]
  · rfl
  · simp

theorem prettyChars_plain (level : Nat) {value : Json} (plain : value.Plain) :
    prettyChars level value = scalar value := by
  cases value with
  | array _ | object _ => exact plain.elim
  | _ => rw [prettyChars] <;> simp

theorem opens_plain {value : Json} (level : Nat) (plain : value.Plain) :
    Opens (prettyChars level value) := by
  rw [prettyChars_plain level plain]
  exact opens_scalar value

theorem through_plain {value : Json} (level : Nat) (stack : List Frame) (plain : value.Plain) :
    ∃ r, Behind stack value.reread r ∧
      (⟨stack, .value⟩ : Reader).through (prettyChars level value) = some r := by
  rw [prettyChars_plain level plain]
  exact through_scalar stack plain

theorem opens_prettyChars (level : Nat) (value : Json) : Opens (prettyChars level value) := by
  cases value with
  | array items =>
    cases items with
    | nil => exact ⟨_, _, rfl, rfl, by decide⟩
    | cons item rest =>
      rw [prettyChars_array]
      exact ⟨_, _, rfl, rfl, by decide⟩
  | object fields =>
    cases fields with
    | nil => exact ⟨_, _, rfl, rfl, by decide⟩
    | cons field rest =>
      rw [prettyChars_object]
      exact ⟨_, _, rfl, rfl, by decide⟩
  | _ => exact opens_plain level trivial

theorem through_firstItem (stack : List Frame) (level : Nat) (value : Json) (rest : List Char) :
    (⟨stack, .firstItem⟩ : Reader).through (prettyChars level value ++ rest) =
      (⟨stack, .value⟩ : Reader).through (prettyChars level value ++ rest) := by
  obtain ⟨c, text, same, space, other⟩ := opens_prettyChars level value
  rw [same, List.cons_append, through_cons, through_cons]
  simp [Reader.next, space, other]

def named (field : String × Json) : Option String × Json := (some field.1, field.2)

theorem close_named (fields : List (String × Json)) : close (fields.map named) = .object fields.reverse := by
  simp [close, named, Function.comp_def]

theorem through_field (stack : List Frame) {fields : List (Option String × Json)}
    {due : Option String} {place : Place} (first : place = .firstName ∨ place = .name) (name : String)
    (rest : List Char) :
    (⟨.object fields due :: stack, place⟩ : Reader).through (quote name ++ ':' :: ' ' :: rest) =
      (⟨.object fields (some name) :: stack, .value⟩ : Reader).through rest := by
  have opens : (⟨.object fields due :: stack, place⟩ : Reader).next (some '"') =
      some (inside (.object fields due :: stack) true []) := by
    rcases first with rfl | rfl <;> rfl
  rw [quote, List.cons_append, through_step opens, through_trans (through_text _ true name)]
  rfl

mutual

theorem through_value : ∀ (value : Json) (level : Nat) (stack : List Frame),
    ∃ r, Behind stack value.reread r ∧
      (⟨stack, .value⟩ : Reader).through (prettyChars level value) = some r
  | .array [], level, stack => ⟨_, .after, rfl⟩
  | .array (item :: rest), level, stack => by
    obtain ⟨r, behind, reads⟩ := through_value item (level + 1) (.array [] :: stack)
    have opens : (⟨stack, .value⟩ : Reader).next (some '[') = some ⟨.array [] :: stack, .firstItem⟩ := rfl
    refine ⟨_, .after, ?_⟩
    rw [prettyChars_array, through_step opens, List.append_assoc,
      through_newLine (idle_firstItem _), through_firstItem, through_trans reads]
    exact through_items rest (level + 1) behind
  | .object [], level, stack => ⟨_, .after, rfl⟩
  | .object ((name, value) :: rest), level, stack => by
    obtain ⟨r, behind, reads⟩ := through_value value (level + 1) (.object [] (some name) :: stack)
    have opens : (⟨stack, .value⟩ : Reader).next (some '{') =
      some ⟨.object [] none :: stack, .firstName⟩ := rfl
    refine ⟨_, .after, ?_⟩
    rw [prettyChars_object, through_step opens, List.append_assoc, List.append_assoc,
      through_newLine (idle_firstName _), List.cons_append, List.cons_append,
      through_field stack (.inl rfl), through_trans reads]
    exact @through_fields rest (level + 1) stack [] name value.reread r behind
  | .null, level, stack => through_plain level stack trivial
  | .bool _, level, stack => through_plain level stack trivial
  | .integer _, level, stack => through_plain level stack trivial
  | .decimal _, level, stack => through_plain level stack trivial
  | .string _, level, stack => through_plain level stack trivial
  | .malformed, level, stack => through_plain level stack trivial

theorem through_items : ∀ (rest : List Json) (level : Nat) {stack : List Frame} {done : List Json}
    {last : Json} {r : Reader} (_ : Behind (.array done :: stack) last r),
    r.through (prettyItems level true rest) =
      some ⟨stack, .after (.array (done.reverse ++ last :: rereadItems rest))⟩
  | [], level, stack, done, last, r, behind => by
    rw [prettyItems, behind.through_newLine, through_cons]
    simp [Reader.next, Reader.goOn, isSpace, rereadItems]
  | item :: rest, level, stack, done, last, r, behind => by
    obtain ⟨r', behind', reads⟩ := through_value item level (.array (last :: done) :: stack)
    have comma : r.next (some ',') = some ⟨.array (last :: done) :: stack, .value⟩ :=
      behind.next (.inl rfl)
    -- a comma and a new line, the item, and the rest with one item more behind
    rw [prettyItems, if_pos rfl, List.append_assoc, List.append_assoc, List.singleton_append,
      through_step comma, through_newLine (idle_value _), through_trans reads,
      through_items rest level behind', List.reverse_cons, List.append_assoc, rereadItems]
    rfl

theorem through_fields : ∀ (rest : List (String × Json)) (level : Nat) {stack : List Frame}
    {done : List (String × Json)} {name : String} {last : Json} {r : Reader}
    (_ : Behind (.object (done.map named) (some name) :: stack) last r),
    r.through (prettyFields level true rest) =
      some ⟨stack, .after (.object (done.reverse ++ (name, last) :: rereadFields rest))⟩
  | [], level, stack, done, name, last, r, behind => by
    have closes : close ((some name, last) :: done.map named) = .object ((name, last) :: done).reverse :=
      close_named ((name, last) :: done)
    rw [prettyFields, behind.through_newLine, through_cons]
    simp [Reader.next, Reader.goOn, isSpace, rereadFields, closes]
  | (next, value) :: rest, level, stack, done, name, last, r, behind => by
    obtain ⟨r', behind', reads⟩ := through_value value level
      (.object (((name, last) :: done).map named) (some next) :: stack)
    have comma : r.next (some ',') =
      some ⟨.object (((name, last) :: done).map named) none :: stack, .name⟩ := behind.next (.inl rfl)
    rw [prettyFields, if_pos rfl]
    simp only [List.append_assoc, List.cons_append, List.nil_append]
    rw [through_step comma, through_newLine (idle_name _), through_field stack (.inr rfl),
      through_trans reads, through_fields rest level behind', List.reverse_cons, List.append_assoc,
      rereadFields]
    rfl

end

/-- A value is read back from its text. -/
theorem ofString?_pretty (value : Json) : ofString? value.pretty = some value.reread := by
  obtain ⟨r, behind, reads⟩ := through_value value 0 []
  unfold Reader.through at reads
  rw [ofString?, ofSigns?, pretty, String.toList_ofList, reads]
  exact behind.finish

/-- The bytes of a text are its characters and nothing else. -/
theorem signs_toUTF8 (text : String) : Text.signs text.toUTF8 = text.toList.map some := by
  have valid : text.toUTF8.IsValidUTF8 := text.isValidUTF8
  have decoded : String.fromUTF8? text.toUTF8 = some text := by
    rw [String.fromUTF8?, dif_pos valid]
    rfl
  rw [Text.signs, decoded]

theorem ofBytes?_pretty (value : Json) : ofBytes? value.pretty.toUTF8 = some value.reread := by
  rw [ofBytes?, signs_toUTF8]
  exact ofString?_pretty value

end Values

end LatencyRank.Json
