import Mathlib
import LatencyRank.Proofs.History.Weight

/-!
How a weight responds to what is entered. At the time of a failure the weight is full, whatever had faded
before; a fast failure weighs more than an ordinary one until its counter is at the limit; a success takes
nothing but weight. Other addresses are left alone.
-/

namespace LatencyRank

namespace FailureRecord

section Entries

variable {r : FailureRecord} {cap : Nat}

theorem fullWeight_le_fail (within : r.Within cap) (now : Int) :
    r.fullWeight ≤ (r.fail cap now).fullWeight := by
  refine fullWeight_mono ?_ ?_
  · have few := within.failures
    rw [failures_fail, Unsigned.bump]
    omega
  · rw [fastFails_fail]

theorem fullWeight_fastFail (within : r.Within cap) (now : Int) :
    (r.fastFail cap now).fullWeight =
      (r.fail cap now).fullWeight + if r.fastFails = cap then 0 else fastFailWeight := by
  have few := within.fastFails
  have failures : (r.fastFail cap now).failures = (r.fail cap now).failures := rfl
  have fastFails : (r.fastFail cap now).fastFails = Unsigned.bump cap r.fastFails := rfl
  rw [fullWeight, fullWeight, failures, fastFails, fastFails_fail, Unsigned.bump, fastFailWeight]
  split <;> omega

theorem fullWeight_succeed_le (r : FailureRecord) : r.succeed.fullWeight ≤ r.fullWeight := by
  refine fullWeight_mono ?_ ?_
  · rw [failures_succeed]
    split <;> omega
  · rw [fastFails_succeed]

end Entries

end FailureRecord

namespace HistoryBook

section Response

variable {b : HistoryBook} {window : Int} {cap : Nat}

/-- At the time of a failure its address has its full weight, whatever had faded before. -/
theorem weight_of_failed (positive : 0 < window) (width : cap ≤ Unsigned.greatest32)
    (fromEmpty : FromEmpty window cap b) {entry : Entry} {now : Int} (failed : entry.failedAt? = some now) :
    (b.note entry).weight entry.ip now = (entry.change b.cap (b.record entry.ip)).fullWeight := by
  have most : max cap 1 ≤ Unsigned.greatest32 := max_le width (by decide)
  have within := counters_of_fromEmpty (fromEmpty.noted entry) most entry.ip
  have latest : ((b.note entry).record entry.ip).lastFailure = now := by
    rw [record_own, lastFailure_change, failed, Option.getD_some]
  have few := FailureRecord.fullWeight_few within.failures within.fastFails
  rw [weight_eq, window_of_fromEmpty (fromEmpty.noted entry),
    FailureRecord.weightAt_early few positive (Int.le_of_eq latest.symm), record_own]

theorem weight_succeeded_le (positive : 0 < window) (fromEmpty : FromEmpty window cap b) (ip : String)
    (time : Int) : (b.note (.succeeded ip)).weight ip time ≤ b.weight ip time := by
  have own : (b.note (.succeeded ip)).record ip = (b.record ip).succeed := record_own b (.succeeded ip)
  rw [weight_eq, weight_eq, window_of_fromEmpty (fromEmpty.noted _), window_of_fromEmpty fromEmpty, own]
  exact FailureRecord.weightAt_mono positive (FailureRecord.fullWeight_succeed_le _)
    (FailureRecord.lastFailure_succeed _) (Int.le_refl time)

theorem weight_note_of_ne (b : HistoryBook) {entry : Entry} {other : String} (ne : other ≠ entry.ip)
    (time : Int) : (b.note entry).weight other time = b.weight other time := by
  have same : (b.note entry).window = b.window := by rw [note_eq]
  rw [weight_eq, weight_eq, record_note, if_neg ne, same]

/-- In every book that an empty one with a positive window comes to: a failure gives an address its full
weight at that time, which is no less than it weighed; a fast failure gives five hundred more unless its
counter is at the limit; a success makes it no heavier at any time; and all this is about one address. -/
theorem weight_responds (positive : 0 < window) (width : cap ≤ Unsigned.greatest32)
    (fromEmpty : FromEmpty window cap b) (ip : String) (now : Int) :
    let failed := b.note (.failed ip now)
    let gaveUp := b.note (.fastFailed ip now)
    failed.weight ip now = 50 * (failed.record ip).failures + 500 * (failed.record ip).fastFails ∧
    b.weight ip now ≤ failed.weight ip now ∧
    failed.weight ip now ≤ gaveUp.weight ip now ∧
    gaveUp.weight ip now - failed.weight ip now =
      (if (b.record ip).fastFails = b.cap then 0 else 500) ∧
    (∀ time, (b.note (.succeeded ip)).weight ip time ≤ b.weight ip time) ∧
    ∀ entry : Entry, entry.ip = ip → ∀ other, other ≠ ip →
      (b.note entry).records.find? other = b.records.find? other ∧
      ∀ time, (b.note entry).weight other time = b.weight other time := by
  intro failed gaveUp
  have failedWeight : failed.weight ip now = ((b.record ip).fail b.cap now).fullWeight :=
    weight_of_failed positive width fromEmpty rfl
  have gaveUpWeight : gaveUp.weight ip now = ((b.record ip).fastFail b.cap now).fullWeight :=
    weight_of_failed positive width fromEmpty rfl
  have own : failed.record ip = (b.record ip).fail b.cap now := record_own b (.failed ip now)
  have within := (within_of_fromEmpty fromEmpty).2 ip
  have heavier := FailureRecord.fullWeight_fastFail within now
  rw [failedWeight, gaveUpWeight, heavier, own]
  refine ⟨rfl, ?_, by omega, ?_, weight_succeeded_le positive fromEmpty ip, ?_⟩
  · -- before, some of the full weight may have faded, and that was no more than it is now
    have most : max cap 1 ≤ Unsigned.greatest32 := max_le width (by decide)
    have few := counters_of_fromEmpty fromEmpty most ip
    rw [weight_eq]
    calc (b.record ip).weightAt b.window now
        ≤ (b.record ip).fullWeight :=
          (FailureRecord.weightAt_bounds _ _ (FailureRecord.fullWeight_few few.failures few.fastFails)).2
      _ ≤ ((b.record ip).fail b.cap now).fullWeight :=
          Int.ofNat_le.mpr (FailureRecord.fullWeight_le_fail within now)
  · have weight : FailureRecord.fastFailWeight = 500 := rfl
    rw [weight]
    split <;> omega
  · rintro entry rfl other ne
    exact ⟨by rw [find?_note, if_neg ne], weight_note_of_ne b ne⟩

/-- A fast failure before the beginning of time, of an address that failed long after it. -/
theorem weight_responds_backwards :
    let b := ((HistoryBook.inMemory 604800000 5).note (.failed "9.9.9.9" 2000)).note (.succeeded "9.9.9.9")
    (0 < (604800000 : Int) ∧ FromEmpty 604800000 5 b) ∧
      b.weight "9.9.9.9" (-7) ≤ (b.note (.failed "9.9.9.9" (-7))).weight "9.9.9.9" (-7) ∧
      (b.note (.fastFailed "9.9.9.9" (-7))).weight "9.9.9.9" (-7) -
        (b.note (.failed "9.9.9.9" (-7))).weight "9.9.9.9" (-7) = 500 := by
  intro b
  have fromEmpty : FromEmpty 604800000 5 b := (FromEmpty.opened.noted _).noted _
  have responds := weight_responds (by decide) (by decide : 5 ≤ Unsigned.greatest32) fromEmpty "9.9.9.9" (-7)
  exact ⟨⟨by decide, fromEmpty⟩, responds.2.1, responds.2.2.2.1⟩

end Response

end HistoryBook

end LatencyRank
