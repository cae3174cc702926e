import Mathlib
import LatencyRank.Proofs.History.Operations

/-!
A record as a count of what was entered about its address since the book was last cleared. In a book that
starts empty every field is told by these entries, except that the failures depend on when they were
forgiven: every third success in a row takes one away until none is left.
-/

namespace LatencyRank

namespace HistoryBook

section Counting

variable {cap : Nat} {entries : List Entry} {r : FailureRecord}

/-- The time of the latest failure, zero if there is none. -/
def lastFailed (entries : List Entry) : Int := (entries.filterMap Entry.failedAt?).getLast?.getD 0

theorem lastFailed_concat (entries : List Entry) (entry : Entry) :
    lastFailed (entries ++ [entry]) = entry.failedAt?.getD (lastFailed entries) := by
  unfold lastFailed
  rw [List.filterMap_append]
  cases failed : entry.failedAt? with
  | none => rw [List.filterMap_cons_none failed, List.filterMap_nil, List.append_nil]; rfl
  | some now => rw [List.filterMap_cons_some failed, List.filterMap_nil, List.getLast?_concat]; rfl

/-- What the entries about an address tell of its record. -/
structure Counted (cap : Nat) (entries : List Entry) (r : FailureRecord) : Prop where
  failures : r.failures ≤ cap
  fastFails : r.fastFails = min cap (entries.countP Entry.isFastFail)
  total : r.total = min Unsigned.greatest64 entries.length
  /-- No failure without an attempt, so that the rate is a share. -/
  fewer : r.failures ≤ r.total
  lastFailure : r.lastFailure = lastFailed entries
  /-- A longer streak would have forgiven a failure. -/
  streak : 0 < r.failures → r.streak ≤ 2
  rate : entries ≠ [] → r.rate = (Binary64.ofInt r.failures).div (.ofInt r.total)

theorem counted_nil (cap : Nat) (ip : String) : Counted cap [] { ip } where
  failures := Nat.zero_le _
  fastFails := (Nat.min_zero cap).symm
  total := rfl
  fewer := Nat.le_refl _
  lastFailure := rfl
  streak := fun _ => Nat.zero_le _
  rate := fun entered => absurd rfl entered

theorem failures_change_le_total (entry : Entry) (width : cap ≤ Unsigned.greatest64)
    (few : r.failures ≤ cap) (fewer : r.failures ≤ r.total) :
    (entry.change cap r).failures ≤ (entry.change cap r).total := by
  rw [failures_change, total_change, Unsigned.bump, Unsigned.bump]
  split
  · omega
  · rw [FailureRecord.failures_succeed]
    split <;> omega

/-- While a failure is left, the streak is shorter than what would forgive one. -/
theorem streak_change_le (entry : Entry) (some' : 0 < (entry.change cap r).failures) :
    (entry.change cap r).streak ≤ 2 := by
  rw [failures_change] at some'
  rw [streak_change]
  split
  · exact Nat.zero_le _
  · rename_i success
    rw [if_neg success, FailureRecord.failures_succeed] at some'
    rw [FailureRecord.streak_succeed]
    by_cases recovers : r.Recovers
    · rw [if_pos recovers]
      exact Nat.zero_le _
    · -- nothing was forgiven although there was something to forgive
      rw [if_neg recovers] at some' ⊢
      exact Nat.le_of_lt_succ (Nat.lt_of_not_le fun long => recovers ⟨long, some'⟩)

theorem Counted.concat (counted : Counted cap entries r) (width : cap ≤ Unsigned.greatest64)
    (entry : Entry) : Counted cap (entries ++ [entry]) (entry.change cap r) where
  failures := failures_change_le (Nat.le_refl _) counted.failures entry
  fastFails := by
    rw [fastFails_change, counted.fastFails, List.countP_append, List.countP_singleton, Unsigned.bump]
    split <;> omega
  total := by
    rw [total_change, counted.total, List.length_append, List.length_singleton, Unsigned.bump]
    omega
  fewer := failures_change_le_total entry width counted.failures counted.fewer
  lastFailure := by rw [lastFailure_change, counted.lastFailure, lastFailed_concat]
  streak := streak_change_le entry
  rate := fun _ => rate_change entry cap r

/-- In a book that starts empty every record is counted by the entries about its address. -/
theorem counted_after (window : Int) (width : cap ≤ Unsigned.greatest32) (operations : List Operation)
    (ip : String) : Counted (max cap 1) (about ip (sinceCleared operations))
      (((inMemory window cap).after operations).record ip) := by
  have width' : max cap 1 ≤ Unsigned.greatest64 :=
    max_le (width.trans (by decide)) (by decide)
  exact record_after (counted_nil _ ip) (fun _ entry _ _ counted => counted.concat width' entry)
    (counted_nil _ ip) operations

end Counting

section Recovery

variable {b : HistoryBook} {ip : String}

theorem forgiven_succeed {r : FailureRecord} {failures successes : Nat}
    (enough : successes + 1 ≤ 3 * failures) (left : r.failures = failures - successes / 3)
    (streak : r.streak = successes % 3) :
    r.succeed.failures = failures - (successes + 1) / 3 ∧ r.succeed.streak = (successes + 1) % 3 := by
  have longer : Unsigned.bump Unsigned.greatest32 r.streak = r.streak + 1 :=
    Unsigned.bump_of_lt (Nat.lt_of_lt_of_le (by omega : r.streak < 3) (by decide))
  have recovers : r.Recovers ↔ successes % 3 = 2 := by
    unfold FailureRecord.Recovers FailureRecord.recoveryStreak
    omega
  rw [FailureRecord.failures_succeed, FailureRecord.streak_succeed, longer]
  by_cases third : successes % 3 = 2
  · rw [if_pos (recovers.mpr third), if_pos (recovers.mpr third)]
    omega
  · rw [if_neg (mt recovers.mp third), if_neg (mt recovers.mp third)]
    omega

/-- Successes in a row, counted from the beginning of the streak, forgive a failure at every third. What
is entered about other addresses meanwhile does not matter. -/
theorem forgiven_after (short : (b.record ip).streak ≤ 2) (later : List Entry)
    (only : ∀ entry ∈ about ip later, entry = .succeeded ip)
    (enough : (b.record ip).streak + (about ip later).length ≤ 3 * (b.record ip).failures) :
    let successes := (b.record ip).streak + (about ip later).length
    let recovered := (b.after (later.map .note)).record ip
    recovered.failures = (b.record ip).failures - successes / 3 ∧
      recovered.streak = successes % 3 := by
  intro successes recovered
  induction later using List.reverseRecOn with
  | nil =>
    have none' : successes = (b.record ip).streak := rfl
    have same : recovered = b.record ip := rfl
    rw [none', same]
    omega
  | append_singleton front entry ih =>
    have step : recovered = ((b.after (front.map .note)).note entry).record ip := by
      simp only [recovered, List.map_append, List.map_singleton, after_append]
      rfl
    rw [about_concat] at only enough
    simp only [successes, about_concat]
    rw [step, record_note]
    by_cases own : entry.ip = ip
    · rw [if_pos own] at only enough
      rw [if_pos own.symm, if_pos own, only entry (List.mem_append_right _ List.mem_cons_self)]
      rw [List.length_append, List.length_singleton] at enough ⊢
      obtain ⟨left, streak⟩ :=
        ih (fun entry member => only entry (List.mem_append_left _ member)) (by omega)
      exact forgiven_succeed (by omega) left streak
    · -- an entry about another address leaves the record as it is and is not counted
      rw [if_neg own] at only enough
      rw [if_neg fun asked => own asked.symm, if_neg own]
      exact ih only enough

/-- Whatever is done to a book that starts empty, the record of each address that something was entered
about since the last clearing is told by these entries, its rate is a share, and successes in a row take
its failures away one at every third. -/
theorem record_of_entries {cap : Nat} (width : cap ≤ Unsigned.greatest32) (window : Int)
    (operations : List Operation) (ip : String) (entered : about ip (sinceCleared operations) ≠ []) :
    let b := (inMemory window cap).after operations
    ∃ r, b.records.find? ip = some r ∧
      Counted (max cap 1) (about ip (sinceCleared operations)) r ∧
      (.zero ≤ r.rate ∧ r.rate ≤ .ofInt 1) ∧
      (0 < r.failures → ∀ later : List Entry, (∀ entry ∈ about ip later, entry = .succeeded ip) →
        (about ip later).length ≤ 3 * r.failures - r.streak →
        let successes := r.streak + (about ip later).length
        let recovered := (b.after (later.map .note)).record ip
        recovered.failures = r.failures - successes / 3 ∧ recovered.streak = successes % 3) := by
  intro b
  have counted : Counted _ _ (b.record ip) := counted_after window width operations ip
  have found : b.records.find? ip = some (b.record ip) := by
    rw [find?_after, if_neg entered]
  have attempted : 0 < (b.record ip).total := by
    rw [counted.total]
    exact Nat.lt_min.mpr ⟨by decide, List.length_pos_of_ne_nil entered⟩
  refine ⟨b.record ip, found, counted, ?_, fun some' later only enough => ?_⟩
  · rw [counted.rate entered]
    exact Binary64.share_between attempted counted.fewer
  · have short := counted.streak some'
    exact forgiven_after short later only (by omega)

/-- What was entered before the clearing and about another address does not count. -/
theorem record_of_entries_since_cleared :
    let operations : List Operation := [.note (.failed "9.9.9.9" 500), .clear,
      .note (.fastFailed "9.9.9.9" 3000), .note (.failed "8.8.8.8" 2000), .note (.failed "9.9.9.9" 1000)]
    about "9.9.9.9" (sinceCleared operations) ≠ [] ∧
      ∃ r, ((inMemory 604800000 0).after operations).records.find? "9.9.9.9" = some r ∧
        r.failures ≤ 1 ∧ r.fastFails = 1 ∧ r.total = 2 ∧ r.lastFailure = 1000 := by
  intro operations
  have own : about "9.9.9.9" (sinceCleared operations) =
      [.fastFailed "9.9.9.9" 3000, .failed "9.9.9.9" 1000] := rfl
  have entered : about "9.9.9.9" (sinceCleared operations) ≠ [] := by simp [own]
  obtain ⟨r, found, counted, -⟩ := record_of_entries (by decide : 0 ≤ Unsigned.greatest32) 604800000
    operations "9.9.9.9" entered
  rw [own] at counted
  exact ⟨entered, r, found, counted.failures, counted.fastFails, counted.total, counted.lastFailure⟩

end Recovery

end HistoryBook

end LatencyRank
