import Mathlib
import LatencyRank.Probe.Script
import LatencyRank.Proofs.Ranker.Leaders
import LatencyRank.Proofs.Ranker.Partial

/-!
A ranking that is called off, at any time and in any state of the ranker. It dispatches nothing any
more and is over before time moves; it returns its hits and what its jobs have come to by then, in
order and nothing else; and the jobs that it leaves behind go on to their end.
-/

namespace LatencyRank

namespace Ranker

variable {σ : Type}

section CalledOff

/-- What becomes of a ranking that was called off by the end of a course. -/
structure CalledOff (start : Ranker σ) (acts : List (Act σ)) (c : Nat) (call : RankingCall) : Prop where
  /-- Left alone, it is over some time. -/
  ends : ∃ steps call' time,
    (start.after (acts ++ alone steps (start.after acts))).rankings[c]? = some call' ∧
      EndsAt start call' time
  /-- It is so before time moves, unless its start is still to come. -/
  atOnce : call.isOver = false →
    (call.stage = .expected → .ranking c ∈ (start.after acts).agenda.ready) →
    ∃ steps call', (start.after (acts ++ alone steps (start.after acts))).rankings[c]? = some call' ∧
      EndsAt start call' (start.after acts).agenda.now
  /-- It gets no more jobs, whatever is done. -/
  posts : ∀ more, roster c (start.after (acts ++ more)).jobs = roster c (start.after acts).jobs
  /-- It gets none at all if it had not begun. -/
  idle : call.stage = .expected → roster c (start.after acts).jobs = []
  /-- It is a ranking of the same candidates still, and once it has begun its jobs are for misses of its
  look at the cache, and what it returns is the hits of that look and what its jobs have come to. -/
  goesOn : ∀ more, ∃ call', (start.after (acts ++ more)).rankings[c]? = some call' ∧
    call'.cancelled = true ∧ call'.candidates = call.candidates ∧
      (call'.stage = .expected ∨
        ∃ early late, acts ++ more = early ++ .turn :: late ∧ Begun start early late c call')
  /-- Left alone, each of its jobs is done some time. -/
  finishes : ∃ steps, ∀ (n : Nat) (job : Job), (start.after acts).jobs[n]? = some job →
    job.owner = .ranking c → ∃ outcome,
      (start.after (acts ++ alone steps (start.after acts))).jobs[n]? = some (job.atStage (.done outcome))
  /-- What a job comes to is measured of its pair, and is due once. -/
  measured : ∀ more (n : Nat) (job : Job) outcome, (start.after (acts ++ more)).jobs[n]? = some job →
    job.stage = .done outcome → MeasuredOnce start (acts ++ more) job.key outcome
  /-- The histories and the cache take down what is due, once each, and nothing else. -/
  taken : ∀ more,
    (start.after (acts ++ more)).history =
        (start.chronicle (acts ++ more)).foldl Deed.enter start.history ∧
      (start.after (acts ++ more)).cache =
        (start.chronicle (acts ++ more)).foldl (Deed.keep start.settings) start.cache

/-- Cancelling loses nothing. -/
theorem called_off (settings : Settings) (base : String) (disk : Disk) (prober : Prober σ)
    (memory : σ) (clock : WallClock) (acts : List (Act σ)) (c : Nat) (call : RankingCall)
    (known : ((make settings base disk prober memory clock).after acts).rankings[c]? = some call)
    (off : call.cancelled = true) :
    CalledOff (make settings base disk prober memory clock) acts c call := by
  generalize made : make settings base disk prober memory clock = start at known
  have crews : CrewsAgree start := made ▸ crewsAgree_make settings base disk prober memory clock
  have agree : JobsAgree start := made ▸ jobsAgree_make ..
  have calls : start.rankings = [] := made ▸ rfl
  have jobs : start.jobs = [] := made ▸ rfl
  have journal : start.journal = [] := made ▸ rfl
  have crews' := crews.after acts
  have same {call' : RankingCall} {time : Nat} (ends : EndsAt (start.after acts) call' time) :
      EndsAt start call' time := by
    unfold EndsAt at ends ⊢
    rwa [settings_after] at ends
  constructor
  case ends =>
    obtain ⟨steps, call', time, known', ends⟩ := over_eventually crews' known off
    exact ⟨steps, call', time, (after_append start acts _).symm ▸ known', same ends⟩
  case atOnce =>
    intro open' called
    -- A ranking that waits was woken by its cancellation, so it has its turn at this instant.
    have queued : .ranking c ∈ (start.after acts).agenda.ready := by
      cases stage : call.stage with
      | expected => exact called stage
      | dispatching misses =>
        exact (crews'.mustered.crewed c call known).calledOff (by rw [RankingCall.isWaiting, stage]) off
      | joining =>
        exact (crews'.mustered.crewed c call known).calledOff (by rw [RankingCall.isWaiting, stage]) off
      | _ => simp [RankingCall.isOver, stage] at open'
    obtain ⟨steps, call', known', ends⟩ := over_at_once crews' known off open' queued
    exact ⟨steps, call', (after_append start acts _).symm ▸ known', same ends⟩
  case posts =>
    intro more
    rw [after_append]
    exact roster_of_cancelled crews' known off more
  case idle => exact fun stage => ((crews'.mustered.crewed c call known).expected stage).1
  case goesOn =>
    intro more
    obtain ⟨call', known', off', candidates⟩ := cancelled_after crews' known off more
    rw [← after_append] at known'
    exact ⟨call', known', off', candidates, begun_after crews calls known'⟩
  case finishes =>
    obtain ⟨steps, done⟩ := done_eventually crews'.boarded
    refine ⟨steps, fun n job known' _ => ?_⟩
    rw [after_append]
    exact done n job known'
  case measured =>
    exact fun more n job outcome known' stage => measuredOnce_of_done agree journal jobs known' stage
  case taken => exact fun more => taken_after agree (acts ++ more)

/-- A ranking of two addresses with one permit is called off between the first and the second. The
second is never measured, and the measurement of the first goes on to its end. -/
theorem called_off_between :
    let scripts := Scripts.direct .empty "10.0.0.2" { usual := some ⟨5, some ⟨20, .tls⟩⟩ }
    let start := make { concurrency := 1 } "" .empty Scripts.prober scripts ⟨0⟩
    let acts : List (Act Scripts) :=
      [.request ["10.0.0.2", "10.0.0.3"] "example" 0 (some 1), .turn, .turn, .tick, .turn]
    ∃ call, (start.after acts).rankings[0]? = some call ∧ call.cancelled = true ∧
      CalledOff start acts 0 call ∧
      ∀ more, roster 0 (start.after (acts ++ more)).jobs = ["10.0.0.2"] := by
  intro scripts start acts
  have cancelled : (start.after acts).rankings[0]?.any RankingCall.cancelled = true := by
    dsimp only [acts, start, scripts]
    decide +kernel
  have crew : roster 0 (start.after acts).jobs = ["10.0.0.2"] := by
    dsimp only [acts, start, scripts]
    decide +kernel
  obtain ⟨call, known, off⟩ := (Option.any_eq_true _ _).mp cancelled
  have result : CalledOff start acts 0 call :=
    called_off { concurrency := 1 } "" .empty Scripts.prober scripts ⟨0⟩ acts 0 call known off
  exact ⟨call, known, off, result, fun more => (result.posts more).trans crew⟩

/-- Not everything is kept under all settings. With the cache turned off, the measurement that a
cancelled ranking leaves behind counts once in the history of its address, but no entry of it comes into
the cache; and a ranking that wants more permits than there can be breaks, cancelled beforehand or not. -/
theorem called_off_unkept :
    let scripts := Scripts.direct .empty "10.0.0.2" { usual := some ⟨5, some ⟨20, .tls⟩⟩ }
    let uncached := make { freshSeconds := 0 } "" .empty Scripts.prober scripts ⟨0⟩
    let acts : List (Act Scripts) :=
      [.request ["10.0.0.2"] "example" 0 (some 1), .turn, .turn, .tick, .turn, .turn, .tick, .turn,
        .tick, .turn, .tick, .turn]
    let wide := make { concurrency := permitLimit + 1 } "" .empty Scripts.prober scripts ⟨0⟩
    let acts' : List (Act Scripts) := [.request ["10.0.0.2"] "example" 0 (some 0), .turn]
    ((uncached.after acts).rankings[0]?.map RankingCall.stage = some (.returned [] 1) ∧
      (uncached.after acts).jobs[0]?.map Job.isDone = some true ∧
      ((uncached.after acts).history.record "10.0.0.2").total = 1 ∧
      (uncached.after acts).cache.find? "10.0.0.2" = none) ∧
    (wide.after acts').rankings[0]?.map RankingCall.stage = some .broken := by
  decide +kernel

end CalledOff

end Ranker

end LatencyRank
