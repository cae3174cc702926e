import Mathlib
import LatencyRank.Proofs.History.Book
import LatencyRank.Proofs.History.Fading

/-!
How much failures can weigh. The counters of a book that starts empty stop at its limit, so the weight of
an address stops too.
-/

namespace LatencyRank

section Counting

/-- The counters of a record are within a limit. -/
structure FailureRecord.Within (cap : Nat) (r : FailureRecord) : Prop where
  failures : r.failures ≤ cap
  fastFails : r.fastFails ≤ cap

namespace FailureRecord

variable {cap limit : Nat} {r : FailureRecord}

theorem Within.mono (within : r.Within cap) (le : cap ≤ limit) : r.Within limit :=
  ⟨within.failures.trans le, within.fastFails.trans le⟩

theorem fullWeight_le (within : r.Within cap) : r.fullWeight ≤ 550 * cap := by
  have failures := within.failures
  have fastFails := within.fastFails
  unfold fullWeight failureWeight fastFailWeight
  omega

end FailureRecord

namespace HistoryBook

/-- The books that an empty book with a window and a limit of its counters comes to. -/
inductive FromEmpty (window : Int) (cap : Nat) : HistoryBook → Prop where
  | opened : FromEmpty window cap (.inMemory window cap)
  | noted {b : HistoryBook} (fromEmpty : FromEmpty window cap b) (entry : Entry) :
      FromEmpty window cap (b.note entry)
  | cleared {b : HistoryBook} (fromEmpty : FromEmpty window cap b) : FromEmpty window cap b.clear

variable {window : Int} {cap limit : Nat} {b : HistoryBook} {r : FailureRecord}

theorem failures_change_le (le : cap ≤ limit) (few : r.failures ≤ limit) (entry : Entry) :
    (entry.change cap r).failures ≤ limit := by
  rw [failures_change]
  split
  · exact (Unsigned.bump_le _ _).trans le
  · rw [FailureRecord.failures_succeed]
    split <;> omega

theorem fastFails_change_le (le : cap ≤ limit) (few : r.fastFails ≤ limit) (entry : Entry) :
    (entry.change cap r).fastFails ≤ limit := by
  rw [fastFails_change]
  split
  · exact (Unsigned.bump_le _ _).trans le
  · exact few

theorem within_change (le : cap ≤ limit) (within : r.Within limit) (entry : Entry) :
    (entry.change cap r).Within limit :=
  ⟨failures_change_le le within.failures entry, fastFails_change_le le within.fastFails entry⟩

theorem within_of_fromEmpty (fromEmpty : FromEmpty window cap b) :
    b.cap = max cap 1 ∧ ∀ ip, (b.record ip).Within b.cap := by
  induction fromEmpty with
  | opened => exact ⟨rfl, fun ip => ⟨Nat.zero_le _, Nat.zero_le _⟩⟩
  | noted _ entry ih =>
    obtain ⟨same, within⟩ := ih
    rw [cap_note]
    refine ⟨same, fun ip => ?_⟩
    rw [record_note]
    split
    · exact within_change (Nat.le_refl _) (within ip) entry
    · exact within ip
  | cleared _ ih => exact ⟨ih.1, fun ip => ⟨Nat.zero_le _, Nat.zero_le _⟩⟩

theorem window_of_fromEmpty (fromEmpty : FromEmpty window cap b) : b.window = window := by
  induction fromEmpty with
  | opened => rfl
  | noted _ entry ih => rw [note_eq, ih]
  | cleared _ ih => exact ih

theorem counters_of_fromEmpty (fromEmpty : FromEmpty window cap b) {most : Nat} (le : max cap 1 ≤ most)
    (ip : String) : (b.record ip).Within most := by
  obtain ⟨same, within⟩ := within_of_fromEmpty fromEmpty
  exact (within ip).mono (same ▸ le)

theorem weight_eq (b : HistoryBook) (ip : String) (now : Int) :
    b.weight ip now = (b.record ip).weightAt b.window now := by
  unfold weight record
  cases b.records.find? ip <;> rfl

theorem weight_of_within (within : ∀ ip, (b.record ip).Within cap) (few : 550 * cap < 2 ^ 53)
    (ip : String) (now : Int) : 0 ≤ b.weight ip now ∧ b.weight ip now ≤ (550 * cap : Nat) := by
  have full := FailureRecord.fullWeight_le (within ip)
  obtain ⟨low, high⟩ := FailureRecord.weightAt_bounds b.window now (Nat.lt_of_le_of_lt full few)
  rw [weight_eq]
  exact ⟨low, high.trans (Int.ofNat_le.mpr full)⟩

theorem weight_of_fromEmpty (fromEmpty : FromEmpty window cap b) (few : 550 * max cap 1 < 2 ^ 53)
    (ip : String) (now : Int) : 0 ≤ b.weight ip now ∧ b.weight ip now ≤ (550 * max cap 1 : Nat) :=
  weight_of_within (counters_of_fromEmpty fromEmpty (Nat.le_refl _)) few ip now

end HistoryBook

end Counting

end LatencyRank
