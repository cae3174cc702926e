import Mathlib
import LatencyRank.History.Book

/-!
What an entry does to the histories: what each field of its address's record is afterwards, which counts
one more attempt, while the records of other addresses stay as they are.
-/

namespace LatencyRank

namespace FailureRecord

section Fields

variable (r : FailureRecord) (cap : Nat) (now : Int)

theorem withRate_eq : r.withRate = { r with rate := r.withRate.rate } := by
  unfold withRate
  split <;> rfl

theorem rate_withRate (some' : 0 < r.total) :
    r.withRate.rate = (Binary64.ofInt r.withRate.failures).div (.ofInt r.withRate.total) := by
  unfold withRate
  rw [if_neg (Nat.ne_of_gt some')]

theorem total_fail : (r.fail cap now).total = Unsigned.bump Unsigned.greatest64 r.total := by
  rw [fail, withRate_eq]

theorem rate_fail :
    (r.fail cap now).rate = (Binary64.ofInt (r.fail cap now).failures).div (.ofInt (r.fail cap now).total) :=
  rate_withRate _ (Unsigned.bump_pos (by decide))

theorem failures_fail : (r.fail cap now).failures = Unsigned.bump cap r.failures := by
  rw [fail, withRate_eq]

theorem fastFails_fail : (r.fail cap now).fastFails = r.fastFails := by
  rw [fail, withRate_eq]

theorem streak_fail : (r.fail cap now).streak = 0 := by
  rw [fail, withRate_eq]

theorem lastFailure_fail : (r.fail cap now).lastFailure = now := by
  rw [fail, withRate_eq]

/-- The success that completes a streak forgives one failure, if there is one. -/
def Recovers : Prop := recoveryStreak ≤ Unsigned.bump Unsigned.greatest32 r.streak ∧ 0 < r.failures

instance : Decidable r.Recovers := inferInstanceAs (Decidable (_ ∧ _))

theorem succeed_eq : r.succeed = withRate { r with
    failures := if r.Recovers then r.failures - 1 else r.failures
    streak := if r.Recovers then 0 else Unsigned.bump Unsigned.greatest32 r.streak
    total := Unsigned.bump Unsigned.greatest64 r.total } := by
  by_cases recovers : r.Recovers
  · simp only [recovers, if_true]
    exact if_pos recovers
  · simp only [recovers, if_false]
    exact if_neg recovers

theorem failures_succeed : r.succeed.failures = if r.Recovers then r.failures - 1 else r.failures := by
  rw [succeed_eq, withRate_eq]

theorem fastFails_succeed : r.succeed.fastFails = r.fastFails := by
  rw [succeed_eq, withRate_eq]

theorem streak_succeed : r.succeed.streak =
    if r.Recovers then 0 else Unsigned.bump Unsigned.greatest32 r.streak := by
  rw [succeed_eq, withRate_eq]

theorem lastFailure_succeed : r.succeed.lastFailure = r.lastFailure := by
  rw [succeed_eq, withRate_eq]

theorem total_succeed : r.succeed.total = Unsigned.bump Unsigned.greatest64 r.total := by
  rw [succeed_eq, withRate_eq]

theorem rate_succeed :
    r.succeed.rate = (Binary64.ofInt r.succeed.failures).div (.ofInt r.succeed.total) := by
  rw [succeed_eq]
  exact rate_withRate _ (Unsigned.bump_pos (by decide))

end Fields

def timeless (r : FailureRecord) : FailureRecord := { r with lastFailure := 0 }

theorem timeless_fail (cap : Nat) (now now' : Int) (r : FailureRecord) :
    (r.fail cap now).timeless = (r.fail cap now').timeless := by
  unfold fail withRate
  dsimp only
  split <;> rfl

theorem timeless_fastFail (cap : Nat) (now now' : Int) (r : FailureRecord) :
    (r.fastFail cap now).timeless = (r.fastFail cap now').timeless := by
  unfold fastFail fail withRate
  dsimp only
  split <;> rfl

end FailureRecord

namespace HistoryBook

def Entry.ip : Entry → String
  | .failed ip _ | .fastFailed ip _ | .succeeded ip => ip

def Entry.isFastFail : Entry → Bool
  | .fastFailed _ _ => true
  | _ => false

def Entry.failedAt? : Entry → Option Int
  | .failed _ now | .fastFailed _ now => some now
  | .succeeded _ => none

def Entry.isFailure (entry : Entry) : Bool := entry.failedAt?.isSome

theorem isFailure_of_isFastFail {entry : Entry} (failed : entry.isFastFail) : entry.isFailure := by
  cases entry with
  | failed ip now => cases failed
  | fastFailed ip now => rfl
  | succeeded ip => cases failed

/-- What an entry does to the record of its address. -/
def Entry.change (cap : Nat) : Entry → FailureRecord → FailureRecord
  | .failed _ now => .fail cap now
  | .fastFailed _ now => .fastFail cap now
  | .succeeded _ => .succeed

theorem total_change (entry : Entry) (cap : Nat) (r : FailureRecord) :
    (entry.change cap r).total = Unsigned.bump Unsigned.greatest64 r.total := by
  cases entry with
  | failed ip now => exact r.total_fail cap now
  | fastFailed ip now => exact r.total_fail cap now
  | succeeded ip => exact r.total_succeed

theorem failures_change (entry : Entry) (cap : Nat) (r : FailureRecord) :
    (entry.change cap r).failures =
      if entry.isFailure then Unsigned.bump cap r.failures else r.succeed.failures := by
  cases entry with
  | failed ip now => exact r.failures_fail cap now
  | fastFailed ip now => exact r.failures_fail cap now
  | succeeded ip => rfl

theorem fastFails_change (entry : Entry) (cap : Nat) (r : FailureRecord) :
    (entry.change cap r).fastFails =
      if entry.isFastFail then Unsigned.bump cap r.fastFails else r.fastFails := by
  cases entry with
  | failed ip now => exact r.fastFails_fail cap now
  | fastFailed ip now => rfl
  | succeeded ip => exact r.fastFails_succeed

theorem streak_change (entry : Entry) (cap : Nat) (r : FailureRecord) :
    (entry.change cap r).streak = if entry.isFailure then 0 else r.succeed.streak := by
  cases entry with
  | failed ip now => exact r.streak_fail cap now
  | fastFailed ip now => exact r.streak_fail cap now
  | succeeded ip => rfl

theorem lastFailure_change (entry : Entry) (cap : Nat) (r : FailureRecord) :
    (entry.change cap r).lastFailure = entry.failedAt?.getD r.lastFailure := by
  cases entry with
  | failed ip now => exact r.lastFailure_fail cap now
  | fastFailed ip now => exact r.lastFailure_fail cap now
  | succeeded ip => exact r.lastFailure_succeed

theorem rate_change (entry : Entry) (cap : Nat) (r : FailureRecord) :
    (entry.change cap r).rate =
      (Binary64.ofInt (entry.change cap r).failures).div (.ofInt (entry.change cap r).total) := by
  cases entry with
  | failed ip now => exact r.rate_fail cap now
  | fastFailed ip now => exact r.rate_fail cap now
  | succeeded ip => exact r.rate_succeed

theorem find?_note (b : HistoryBook) (entry : Entry) (ip : String) :
    (b.note entry).records.find? ip =
      if ip = entry.ip then some (entry.change b.cap (b.record entry.ip)) else b.records.find? ip := by
  cases entry <;> exact Keyed.find?_insert ..

theorem note_eq (b : HistoryBook) (entry : Entry) :
    b.note entry = { b with records := (b.note entry).records } := by
  cases entry <;> rfl

theorem cap_note (b : HistoryBook) (entry : Entry) : (b.note entry).cap = b.cap := by
  rw [note_eq]

theorem record_note (b : HistoryBook) (entry : Entry) (ip : String) :
    (b.note entry).record ip =
      if ip = entry.ip then entry.change b.cap (b.record ip) else b.record ip := by
  unfold record
  rw [find?_note]
  split
  · rename_i same
    rw [same]
    rfl
  · rfl

theorem record_own (b : HistoryBook) (entry : Entry) :
    (b.note entry).record entry.ip = entry.change b.cap (b.record entry.ip) := by
  rw [record_note, if_pos rfl]

theorem total_note (b : HistoryBook) (entry : Entry) (ip : String) :
    ((b.note entry).record ip).total =
      if ip = entry.ip then Unsigned.bump Unsigned.greatest64 (b.record ip).total
      else (b.record ip).total := by
  rw [record_note]
  split
  · exact total_change entry b.cap (b.record ip)
  · rfl

end HistoryBook

end LatencyRank
