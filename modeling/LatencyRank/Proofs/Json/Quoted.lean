import Mathlib.Tactic.SplitIfs
import LatencyRank.Json.Reader
import LatencyRank.Json.Basic

/-!
What is written between quotes is read back as the same text. The reader takes the text one sign at
a time, so it is followed over a piece of text, and over two pieces in turn.
-/

namespace LatencyRank.Json

section Passage

def Reader.through (r : Reader) (text : List Char) : Option Reader :=
  (text.map some).foldlM Reader.next r

variable {r r' : Reader} {c : Char} {text rest : List Char}

@[simp]
theorem through_nil (r : Reader) : r.through [] = some r := rfl

@[simp]
theorem through_cons (r : Reader) (c : Char) (rest : List Char) :
    r.through (c :: rest) = (r.next (some c)).bind (·.through rest) := rfl

theorem through_append (r : Reader) (text rest : List Char) :
    r.through (text ++ rest) = (r.through text).bind (·.through rest) := by
  unfold Reader.through
  rw [List.map_append, List.foldlM_append]
  rfl

theorem through_trans (first : r.through text = some r') :
    r.through (text ++ rest) = r'.through rest := by
  rw [through_append, first]
  rfl

theorem through_step (first : r.next (some c) = some r') : r.through (c :: rest) = r'.through rest := by
  rw [through_cons, first]
  rfl

end Passage

section Quoted

variable (stack : List Frame) (isName : Bool)

/-- A reader between quotes, behind some characters, the last one first. -/
def inside (chars : List Char) : Reader := ⟨stack, .quoted isName ⟨some chars, none, .plain⟩⟩

theorem through_unit (c : Char) (control : c.toNat < 0x20) (chars : List Char) :
    (inside stack isName chars).through
        ['\\', 'u', '0', '0', Nat.digitChar (c.toNat / 16), Nat.digitChar (c.toNat % 16)] =
      some (inside stack isName (c :: chars)) := by
  have zero : Text.hexDigit? '0' = some 0 := rfl
  have high := Text.hexDigit?_digitChar (n := c.toNat / 16) (by omega)
  have low := Text.hexDigit?_digitChar (n := c.toNat % 16) (by omega)
  have whole : 16 * (c.toNat / 16) + c.toNat % 16 = c.toNat := Nat.div_add_mod _ _
  have single : ¬(0xD800 ≤ c.toNat ∧ c.toNat < 0xDC00) := by omega
  have single' : ¬(0xDC00 ≤ c.toNat ∧ c.toNat < 0xE000) := by omega
  simp [inside, Reader.next, Quoted.next, Quoted.pushUnit, Quoted.push, zero, high, low, whole,
    single, single']

theorem through_escape (c : Char) (chars : List Char) :
    (inside stack isName chars).through (escape c) = some (inside stack isName (c :: chars)) := by
  unfold escape
  split_ifs with quote backslash b t n f r control
  case pos => subst quote; rfl
  case pos => subst backslash; rfl
  case pos => subst b; rfl
  case pos => subst t; rfl
  case pos => subst n; rfl
  case pos => subst f; rfl
  case pos => subst r; rfl
  case pos => exact through_unit stack isName c control chars
  case neg => simp [inside, Reader.next, Quoted.next, Quoted.push, quote, backslash, control]

theorem through_escapes (text chars : List Char) :
    (inside stack isName chars).through (text.flatMap escape) =
      some (inside stack isName (text.reverse ++ chars)) := by
  induction text generalizing chars with
  | nil => rfl
  | cons c rest ih =>
    rw [List.flatMap_cons, through_trans (through_escape stack isName c chars), ih,
      List.reverse_cons, List.append_assoc, List.singleton_append]

/-- The text up to the closing quote, filed where it belongs. -/
theorem through_text (text : String) :
    (inside stack isName []).through (text.toList.flatMap escape ++ ['"']) =
      Reader.quoted stack isName (some text) := by
  have same : String.ofList text.toList.reverse.reverse = text := by
    rw [List.reverse_reverse, String.ofList_toList]
  rw [through_trans (through_escapes stack isName text.toList []), List.append_nil, through_cons]
  simp only [inside, Reader.next, Quoted.next, if_true, Quoted.text, Option.map_some, same]
  exact Option.bind_fun_some _

end Quoted

end LatencyRank.Json
