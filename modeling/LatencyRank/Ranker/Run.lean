import LatencyRank.Ranker.Step

/-!
Running a ranker. The work that is left at an instant is counted so that every turn leaves less of
it; the wakings that are still to come are counted by the attempts that can still be made.
-/

namespace LatencyRank.Ranker

variable {σ : Type}

def jobWork (job : Job) : Nat :=
  match job.stage with
  | .queued => 4
  | .waiting => 3
  | .attempting .. => 3
  | .told _ => 2
  | .done _ => 0

def rankingWork (call : RankingCall) : Nat :=
  let undispatched := match call.stage with
    | .expected => call.candidates.length
    | .dispatching misses => misses.length
    | .joining | .returned .. | .broken => 0
  5 * undispatched + if call.cancelled then 0 else 1

/-- The turns that are left at this instant, at most. -/
def work (r : Ranker σ) : Nat :=
  totalOf jobWork r.jobs + totalOf rankingWork r.rankings + r.agenda.ready.length

/-- The wakings that are still to come, at most. -/
def horizon (r : Ranker σ) : Nat :=
  let ofJob (job : Job) := if job.isDone then 0 else 1
  let ofRanking (call : RankingCall) := if call.isOver then 0 else call.candidates.length
  r.agenda.sleeping.length
    + r.settings.attemptCount * (totalOf ofJob r.jobs + totalOf ofRanking r.rankings)

def turnsUntil (stop : Ranker σ → Bool) : Nat → Ranker σ → Ranker σ
  | 0, r => r
  | fuel + 1, r =>
    if stop r then r
    else match r.step? with
      | some r => turnsUntil stop fuel r
      | none => r

def settle (r : Ranker σ) : Ranker σ := turnsUntil (fun _ => false) r.work r

def settleUntil (stop : Ranker σ → Bool) (r : Ranker σ) : Ranker σ := turnsUntil stop r.work r

end LatencyRank.Ranker
