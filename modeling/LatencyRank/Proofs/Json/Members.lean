import Mathlib
import LatencyRank.Json.Members
import LatencyRank.Proofs.Json.RoundTrip
import LatencyRank.Proofs.Keyed

/-!
Fields of records. A scalar that is read lies in the range of its field, and one that lies there is
read back from its text. A record whose own fields are all written, each once, is read from them.
-/

namespace LatencyRank.Json

section Scalars

variable {limit n : Nat} {i : Int} {x : Binary64} {value : Json}

theorem le_of_natUpTo? (read : value.natUpTo? limit = some n) : n ≤ limit := by
  unfold natUpTo? at read
  split at read
  · split at read
    · cases read
      omega
    · cases read
  · cases read

theorem natUpTo?_nat (le : n ≤ limit) : (nat n).natUpTo? limit = some n := by
  unfold natUpTo? nat
  dsimp only
  rw [if_pos ⟨Int.natCast_nonneg n, Int.ofNat_le.mpr le⟩, Int.toNat_natCast]

theorem inRange_of_signed? (read : value.signed? = some i) : Signed.InRange i := by
  unfold signed? at read
  split at read
  · split at read
    · rename_i inside
      cases read
      exact inside
    · cases read
  · cases read

theorem signed?_integer (inside : Signed.InRange i) : (integer i).signed? = some i := if_pos inside

theorem isDouble_of_real? (read : value.real? = some x) : x.IsDouble := by
  unfold real? at read
  rw [Option.filter_eq_some_iff] at read
  obtain ⟨read, finite⟩ := read
  refine ⟨?_, of_decide_eq_true finite⟩
  cases value with
  | integer n =>
    cases read
    exact Binary64.exact_nearest _ Nat.one_pos
  | decimal d =>
    cases read
    exact Decimal.exact_toBinary64 d
  | _ => cases read

theorem real?_reread_real (double : x.IsDouble) : (real x).reread.real? = some x := by
  have read : (real x).reread.real? =
      (some (Decimal.shortest x).reread.toBinary64).filter Binary64.isFinite := rfl
  have finite : x.isFinite = true := decide_eq_true double.finite
  rw [read, Decimal.toBinary64_reread, Decimal.toBinary64_shortest double, Option.filter_some,
    if_pos finite]

theorem optional?_optional {α : Type} {decode : Json → Option α} {encode : α → Json}
    (reads : ∀ x, decode (encode x) = some x) (some' : ∀ x, encode x ≠ .null) (x : Option α) :
    (optional encode x).optional? decode = some x := by
  cases x with
  | none => rfl
  | some x =>
    unfold optional optional?
    dsimp only
    split
    · rename_i null
      exact absurd null (some' x)
    · rw [reads]
      rfl

end Scalars

section Fields

theorem bind_of_some {α β : Type} {first : Option α} {next : α → Option β} {x : α} {y : β}
    (reads : first = some x) (goesOn : next x = some y) : (first >>= next) = some y := by
  rw [reads]
  exact goesOn

variable {α : Type} {names : List String} {members : Members} {name : String} {value : Json}
  {default x : α} {decode : Json → Option α}

theorem orElse_of {P : α → Prop} (read : members.orElse name default decode = some x)
    (default' : P default) (decodes : ∀ value x, decode value = some x → P x) : P x := by
  unfold Members.orElse at read
  split at read
  · exact decodes _ _ read
  · cases read
    exact default'

theorem le_of_orElse_usual {limit usual n : Nat} (fits : usual ≤ limit)
    (read : members.orElse name usual (natUpTo? limit) = some n) : n ≤ limit :=
  orElse_of (P := (· ≤ limit)) read fits fun _ _ => le_of_natUpTo?

theorem le_of_orElse {limit n : Nat} (read : members.orElse name 0 (natUpTo? limit) = some n) :
    n ≤ limit := le_of_orElse_usual (Nat.zero_le limit) read

/-- A record's own fields, each once, are all that is read of it. -/
theorem members?_object (known : members.map Prod.fst = names) (distinct : names.Nodup) :
    (object members).members? names = some members := by
  have all : members.filter (fun field => field.1 ∈ names) = members := by
    apply List.filter_eq_self.mpr
    intro field member
    apply decide_eq_true
    rw [← known]
    exact List.mem_map_of_mem member
  unfold members?
  dsimp only
  rw [all, known, if_pos distinct]

theorem required_of_mem (distinct : (members.map Prod.fst).Nodup) (member : (name, value) ∈ members)
    (reads : decode value = some x) : members.required name decode = some x := by
  rw [Members.required, Keyed.lookup_of_mem distinct member]
  exact reads

theorem orElse_of_mem (distinct : (members.map Prod.fst).Nodup) (member : (name, value) ∈ members)
    (reads : decode value = some x) (default : α) : members.orElse name default decode = some x := by
  rw [Members.orElse, Keyed.lookup_of_mem distinct member]
  exact reads

end Fields

theorem mapM_eq_some {α β : Type} {decode : α → Option β} {items : List α} {values : List β} :
    items.mapM decode = some values ↔ items.map decode = values.map some := by
  induction items generalizing values with
  | nil => cases values <;> simp
  | cons item rest ih =>
    rw [List.mapM_cons, List.map_cons]
    cases first : decode item with
    | none => cases values <;> simp
    | some value =>
      cases values with
      | nil => cases others : rest.mapM decode <;> simp
      | cons value' values =>
        rw [List.map_cons, List.cons_eq_cons, ← ih, Option.some_inj]
        cases others : rest.mapM decode <;> simp

end LatencyRank.Json
