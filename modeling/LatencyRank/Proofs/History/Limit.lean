import Mathlib
import LatencyRank.Proofs.History.Operations
import LatencyRank.Proofs.History.Snapshot

/-!
The limit of the counters. Whatever is entered about an address leaves its counters within the limit of
the book if they were within it, so they are in every book that starts empty. A file is not held to the
limit: a record that was written under a greater one is loaded as it is, and stays above until an entry of
its kind cuts it down or the book is cleared. Above the limit one more failure makes a record better.
-/

namespace LatencyRank

namespace HistoryBook

section Limit

variable {b : HistoryBook} {ip : String} {limit : Nat} {operations : List Operation}

/-- Every counter is within the limit of the book, and no failure lowers the count of failures. -/
structure Capped (b : HistoryBook) : Prop where
  within : ∀ ip, (b.record ip).Within b.cap
  grows : ∀ entry : Entry, entry.isFailure →
    (b.record entry.ip).failures ≤ ((b.note entry).record entry.ip).failures

theorem failures_note {entry : Entry} (b : HistoryBook) (failed : entry.isFailure) :
    ((b.note entry).record entry.ip).failures = Unsigned.bump b.cap (b.record entry.ip).failures := by
  rw [record_own, failures_change, if_pos failed]

theorem lowered_iff {entry : Entry} (b : HistoryBook) (failed : entry.isFailure) :
    ((b.note entry).record entry.ip).failures < (b.record entry.ip).failures ↔
      b.cap < (b.record entry.ip).failures := by
  rw [failures_note b failed, Unsigned.bump]
  omega

theorem capped_iff : Capped b ↔ ∀ ip, (b.record ip).Within b.cap := by
  constructor
  · exact Capped.within
  · intro within
    refine ⟨within, fun entry failed => Nat.le_of_not_lt fun less => ?_⟩
    exact Nat.not_lt.mpr (within entry.ip).failures ((lowered_iff b failed).mp less)

theorem within_after (within : (b.record ip).Within limit) (le : b.cap ≤ limit)
    (operations : List Operation) : ((b.after operations).record ip).Within limit :=
  record_after (P := fun _ r => r.Within limit) ⟨Nat.zero_le _, Nat.zero_le _⟩
    (fun _ entry _ _ within => within_change le within entry) within operations

theorem failures_after_failed {entry : Entry} (member : .note entry ∈ operations)
    (failed : entry.isFailure) : ((b.after operations).record entry.ip).failures ≤ b.cap := by
  refine record_after_of_mem (P := fun r => r.failures ≤ b.cap) (Nat.zero_le _)
    (fun entry _ few => failures_change_le (Nat.le_refl _) few entry) (fun b' same => ?_) member
  change ((b'.note entry).record entry.ip).failures ≤ b.cap
  rw [failures_note b' failed, same]
  exact Unsigned.bump_le _ _

theorem within_after_fastFailed {entry : Entry} (member : .note entry ∈ operations)
    (failed : entry.isFastFail) : ((b.after operations).record entry.ip).Within b.cap := by
  refine record_after_of_mem (P := fun r => r.Within b.cap) ⟨Nat.zero_le _, Nat.zero_le _⟩
    (fun entry _ within => within_change (Nat.le_refl _) within entry) (fun b' same => ?_) member
  change ((b'.note entry).record entry.ip).Within b.cap
  constructor
  · rw [failures_note b' (isFailure_of_isFastFail failed), same]
    exact Unsigned.bump_le _ _
  · rw [record_own, fastFails_change, if_pos failed, same]
    exact Unsigned.bump_le _ _

theorem within_after_clear (member : .clear ∈ operations) (ip : String) :
    ((b.after operations).record ip).Within b.cap :=
  record_after_of_mem (P := fun r => r.Within b.cap) ⟨Nat.zero_le _, Nat.zero_le _⟩
    (fun entry _ within => within_change (Nat.le_refl _) within entry)
    (fun _ _ => ⟨Nat.zero_le _, Nat.zero_le _⟩) member

end Limit

section Loaded

variable {disk : Disk} {path : String} {window : Int} {cap limit : Nat}

/-- What is loaded is within a limit exactly if the record that each address has in the file is. -/
theorem within_load_iff : (∀ ip, ((load disk path window cap).record ip).Within limit) ↔
    ∀ records, readRecords? disk path = some records → ∀ ip r,
      (records.filter fun r => r.ip = ip).getLast? = some r → r.Within limit := by
  constructor
  · intro within records read ip r last
    have found : (load disk path window cap).records.find? ip = some r := by
      rw [find?_load, read, Option.getD_some, last]
    have inside := within ip
    rwa [record, found, Option.getD_some] at inside
  · intro within ip
    unfold record
    cases found : (load disk path window cap).records.find? ip with
    | none => exact ⟨Nat.zero_le _, Nat.zero_le _⟩
    | some r =>
      rw [find?_load] at found
      cases read : readRecords? disk path with
      | none =>
        rw [read] at found
        cases found
      | some records =>
        rw [read, Option.getD_some] at found
        exact within records read ip r found

/-- Where the limit holds: in every book that starts empty, whatever is done to it; in every book that
comes from a file, exactly if no record that is loaded is above. A count above the limit is what one more
failure lowers. It does not grow, and does not outlast a clearing or an entry that counts it. -/
theorem limit_of_counters (disk : Disk) (path : String) (window : Int) (cap : Nat) :
    (∀ operations, Capped ((inMemory window cap).after operations)) ∧
    ((∀ operations, Capped ((load disk path window cap).after operations)) ↔
      ∀ records, readRecords? disk path = some records → ∀ ip r,
        (records.filter fun r => r.ip = ip).getLast? = some r → r.Within (max cap 1)) ∧
    ∀ operations,
      let b := (load disk path window cap).after operations
      (∀ entry : Entry, entry.isFailure →
        (((b.note entry).record entry.ip).failures < (b.record entry.ip).failures ↔
          max cap 1 < (b.record entry.ip).failures)) ∧
      (∀ ip limit, max cap 1 ≤ limit → ((load disk path window cap).record ip).Within limit →
        (b.record ip).Within limit) ∧
      (.clear ∈ operations → ∀ ip, (b.record ip).Within (max cap 1)) ∧
      ∀ entry, .note entry ∈ operations →
        (entry.isFailure → (b.record entry.ip).failures ≤ max cap 1) ∧
        (entry.isFastFail → (b.record entry.ip).Within (max cap 1)) := by
  refine ⟨fun operations => ?_, ?_, fun operations => ?_⟩
  · rw [capped_iff, cap_after]
    exact fun ip => within_after ⟨Nat.zero_le _, Nat.zero_le _⟩ (Nat.le_refl _) operations
  · rw [← within_load_iff]
    constructor
    · -- what is loaded is the book before any operation
      exact fun capped => (capped []).within
    · intro within operations
      rw [capped_iff, cap_after]
      exact fun ip => within_after (within ip) (Nat.le_refl _) operations
  · intro b
    have same : b.cap = max cap 1 := cap_after _ operations
    refine ⟨fun entry failed => ?_, fun ip limit le within => within_after within le operations,
      fun member ip => within_after_clear (b := load disk path window cap) member ip,
      fun entry member => ⟨?_, ?_⟩⟩
    · rw [lowered_iff b failed, same]
    · exact failures_after_failed (b := load disk path window cap) member
    · exact within_after_fastFailed (b := load disk path window cap) member

def hundredText : String := "[\x7b\"ip\":\"8.8.8.8\",\"failureCount\":100\x7d]"

def hundredDisk : Disk := { root := .directory [("w", .file hundredText.toUTF8)] }

theorem readRecords?_hundredDisk :
    readRecords? hundredDisk "w" = some [{ ip := "8.8.8.8", failures := 100 }] := by
  have text : hundredDisk.read? "w" = some hundredText.toUTF8 := by cbv
  have value : Json.ofBytes? hundredText.toUTF8 =
      some (.array [.object [("ip", .string "8.8.8.8"), ("failureCount", .nat 100)]]) := by cbv
  rw [readRecords?, text]
  exact (congrArg (Option.bind · FailureRecord.listOfJson?) value).trans rfl

/-- Under the same limit it holds whatever is done to the book. -/
theorem limit_of_counters_equal :
    readRecords? hundredDisk "w" = some [{ ip := "8.8.8.8", failures := 100 }] ∧
      ∀ operations, Capped ((load hundredDisk "w" 604800000 100).after operations) := by
  refine ⟨readRecords?_hundredDisk, (limit_of_counters hundredDisk "w" 604800000 100).2.1.mpr ?_⟩
  intro records read ip r last
  rw [readRecords?_hundredDisk] at read
  cases read
  have member := (List.mem_filter.mp (List.mem_of_getLast? last)).1
  cases List.mem_singleton.mp member
  exact ⟨by decide, by decide⟩

/-- Under a limit of five the hundred failures stay, until one more makes them five. -/
theorem limit_exceeded :
    let b := load hundredDisk "w" 604800000 5
    ((b.record "8.8.8.8").failures = 100 ∧
      ((b.note (.failed "8.8.8.8" 1000)).record "8.8.8.8").failures = 5) ∧
      ¬∀ (disk : Disk) (path : String) (window : Int) (cap : Nat), 1 ≤ cap → cap ≤ Unsigned.greatest32 →
        ∀ operations, Capped ((load disk path window cap).after operations) := by
  intro b
  have found : b.record "8.8.8.8" = { ip := "8.8.8.8", failures := 100 } := by
    unfold record
    rw [find?_load, readRecords?_hundredDisk]
    rfl
  refine ⟨⟨by rw [found], ?_⟩, fun capped => ?_⟩
  · have one : Entry.isFailure (.failed "8.8.8.8" 1000) := rfl
    have lowered := failures_note b one
    rw [Entry.ip, found] at lowered
    exact lowered
  · have within : (b.record "8.8.8.8").failures ≤ 5 :=
      ((capped hundredDisk "w" 604800000 5 (by decide) (by decide) []).within "8.8.8.8").failures
    rw [found] at within
    exact absurd within (by decide)

end Loaded

end HistoryBook

end LatencyRank
