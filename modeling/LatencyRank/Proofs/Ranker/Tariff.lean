import Mathlib
import LatencyRank.Proofs.Ranker.Boarding

/-!
What the work that is left can still cost. A tariff puts a price on every stage of a job, on every
candidate that may become a job, on a turn and on a waking, so that each stage pays for what follows
it. Under any tariff a ranker can afford every turn that it takes.
-/

namespace LatencyRank

structure Prices where
  stage : JobStage → Nat
  /-- A candidate that may become a job. -/
  miss : Nat
  turn : Nat
  waking : Nat

/-- With so many attempts to a measurement, each stage pays for what follows it. -/
structure Prices.Suffice (p : Prices) (attempts : Nat) : Prop where
  waits : p.stage .waiting ≤ p.stage .queued
  begins : ∀ left progress sample, left + 1 ≤ attempts →
    p.stage (.attempting left progress sample) + p.waking ≤ p.stage .waiting
  goesOn : ∀ left left' progress progress' sample sample', left' + 1 ≤ left →
    p.stage (.attempting left' progress' sample') + p.waking ≤ p.stage (.attempting left progress sample)
  ends : ∀ left progress sample, p.turn ≤ p.stage (.attempting left progress sample)
  telling : ∀ outcome, p.stage (.told outcome) + p.turn ≤ p.stage .waiting
  told : ∀ outcome, p.turn ≤ p.stage (.told outcome)
  done : ∀ outcome, p.stage (.done outcome) = 0
  spawning : p.stage .queued + p.turn ≤ p.miss

/-- Prices that suffice. -/
structure Tariff (attempts : Nat) extends Prices where
  suffice : toPrices.Suffice attempts

namespace Tariff

open Ranker

variable {σ : Type} {attempts : Nat}

section Costs

variable (t : Tariff attempts)

def jobCost (job : Job) : Nat := t.stage job.stage

def rankingCost (call : RankingCall) : Nat :=
  t.miss * call.undispatched + if call.cancelled then 0 else t.turn

def burden (a : Agenda Task) (jobs : List Job) : Nat :=
  totalOf t.jobCost jobs + t.waking * a.sleeping.length + t.turn * a.ready.length

def cost (r : Ranker σ) : Nat := t.burden r.agenda r.jobs + totalOf t.rankingCost r.rankings

variable {r r' : Ranker σ} {agenda : Agenda Task} {n c : Nat} {job : Job} {call : RankingCall}

theorem burden_pop (jobs : List Job) {a b : Agenda Task} {task : Task}
    (popped : a.pop? = some (task, b)) : t.burden b jobs + t.turn = t.burden a jobs := by
  obtain ⟨shape, sleeping, -⟩ := Agenda.pop?_eq_some popped
  unfold burden
  rw [shape, sleeping, List.length_cons, Nat.mul_succ, Nat.add_assoc]

theorem burden_wakeAll (a : Agenda Task) (tasks : List Task) (jobs : List Job) :
    t.burden (a.wakeAll tasks) jobs ≤ t.burden a jobs + t.turn * tasks.length := by
  have longer := Nat.mul_le_mul_left t.turn (Agenda.ready_wakeAll_length a tasks)
  rw [Nat.mul_add] at longer
  unfold burden
  rw [Agenda.sleeping_wakeAll]
  omega

theorem burden_stage (a : Agenda Task) {jobs : List Job} (known : jobs[n]? = some job)
    (stage : JobStage) : t.burden a (jobs.modify n (.atStage stage)) + t.stage job.stage =
      t.burden a jobs + t.stage stage := by
  have total := totalOf_modify t.jobCost known (.atStage stage)
  change _ + t.stage job.stage = _ + t.stage stage at total
  unfold burden
  omega

theorem turn_mul_heeding_le (rankings : List RankingCall) (owner : Owner) :
    t.turn * (heeding rankings owner).length ≤ t.turn := by
  unfold heeding
  split
  · exact Nat.zero_le _
  · split
    · exact Nat.le_of_eq (Nat.mul_one _)
    · exact Nat.zero_le _

/-- What a ranking can cost does not depend on what its jobs found. -/
theorem rankingCost_rankingsAfter (rankings : List RankingCall) (outcome : Measurement)
    (owner : Owner) : totalOf t.rankingCost (rankingsAfter rankings outcome owner) =
      totalOf t.rankingCost rankings := by
  cases owner with
  | refresh => rfl
  | ranking c =>
    cases known : rankings[c]? with
    | none => rw [rankingsAfter, List.modify_eq_self (List.getElem?_eq_none_iff.mp known)]
    | some call =>
      have total := totalOf_modify t.rankingCost known (delivered outcome)
      have same : t.rankingCost (delivered outcome call) = t.rankingCost call := rfl
      rw [same] at total
      exact Nat.add_right_cancel total

theorem burden_enlists {recruits : List Job} (enlists : Enlists r recruits r') :
    t.burden r'.agenda r'.jobs ≤ t.burden r.agenda r.jobs + t.miss * recruits.length := by
  have each : totalOf t.jobCost recruits = t.stage .queued * recruits.length :=
    totalOf_eq_mul fun job member => congrArg t.stage (enlists.fresh job member)
  have called : (callsOf r.jobs recruits).length = recruits.length := by simp [callsOf]
  have woken := t.burden_wakeAll r.agenda (callsOf r.jobs recruits) (r.jobs ++ recruits)
  have paid := Nat.mul_le_mul_right recruits.length t.suffice.spawning
  rw [Nat.add_mul] at paid
  rw [called] at woken
  rw [enlists.agenda, enlists.jobs]
  refine woken.trans ?_
  unfold burden
  rw [totalOf_append, each]
  omega

end Costs

section Turns

variable (t : Tariff attempts) {r r' : Ranker σ} {agenda : Agenda Task} {n c : Nat} {job : Job}
  {call : RankingCall}

theorem cost_completed {flights : Flights} {m : Measurement}
    (underway : Underway flights agenda r.jobs n job) (known : r.jobs[n]? = some job)
    (working : t.turn ≤ t.stage job.stage) (popped : r.agenda.pop? = some (.job n, agenda))
    (memory : σ) (journal : List RankerEvent) :
    t.cost (completed { r with agenda, flights, memory, journal } n job m) + t.turn ≤ t.cost r := by
  have single : (flights.land job.key).2.Nodup := by
    rw [Flights.land_waiting]
    cases found : flights.find? job.key with
    | none => exact List.nodup_nil
    | some flight => exact underway.others.single job.key flight found
  have waiting : ∀ k ∈ (flights.land job.key).2, ∃ other, r.jobs[k]? = some other ∧
      t.jobCost (other.atStage (.told m)) + t.turn ≤ t.jobCost other := by
    intro k waited
    obtain ⟨-, other, known', -, stage⟩ := waited_of_underway underway waited
    refine ⟨other, known', ?_⟩
    rw [jobCost, jobCost, stage]
    exact t.suffice.telling m
  -- whoever waited pays for its waking with what it need not measure itself any more
  have told : t.burden agenda (toldAll m (flights.land job.key).2 r.jobs) +
      t.turn * (flights.land job.key).2.length ≤ t.burden agenda r.jobs := by
    have lower := totalOf_modifyAll_le single waiting
    unfold burden toldAll
    omega
  have still := still_of_underway underway known m
  have done := t.burden_stage ((agenda.wakeAll ((flights.land job.key).2.map .job)).wakeAll
    (heeding r.rankings job.owner)) still (.done m)
  have early := t.burden_wakeAll agenda ((flights.land job.key).2.map Task.job)
    (toldAll m (flights.land job.key).2 r.jobs)
  have late := t.burden_wakeAll (agenda.wakeAll ((flights.land job.key).2.map Task.job))
    (heeding r.rankings job.owner) (toldAll m (flights.land job.key).2 r.jobs)
  have short := t.turn_mul_heeding_le r.rankings job.owner
  have before := t.burden_pop r.jobs popped
  have same := t.rankingCost_rankingsAfter r.rankings m job.owner
  rw [List.length_map] at early
  rw [t.suffice.done] at done
  unfold cost completed
  dsimp only
  omega

theorem stage_of_begins {flights : Flights} {total left : Nat} {progress after : Progress}
    {pending : List (Option Sample)} {sample : Option Sample} (t : Tariff r.settings.attemptCount)
    (begins : Begins { r with agenda } n job flights total progress pending) (fewer : left + 1 ≤ total) :
    t.stage (.attempting left after sample) + t.waking ≤ t.stage job.stage := by
  cases begins with
  | first stage runs =>
    rw [stage]
    exact (t.suffice.begins left after sample fewer).trans t.suffice.waits
  | again stage =>
    rw [stage]
    exact t.suffice.begins left after sample fewer
  | next stage =>
    rw [stage]
    exact t.suffice.goesOn _ _ _ _ _ _ fewer

theorem turn_of_begins {before : Ranker σ} {flights : Flights} {total : Nat} {progress : Progress}
    {pending : List (Option Sample)} (begins : Begins before n job flights total progress pending) :
    t.turn ≤ t.stage job.stage := by
  have waiting : t.turn ≤ t.stage .waiting := (Nat.le_add_left _ _).trans (t.suffice.telling (.givenUp ""))
  cases begins with
  | first stage runs =>
    rw [stage]
    exact waiting.trans t.suffice.waits
  | again stage =>
    rw [stage]
    exact waiting
  | next stage =>
    rw [stage]
    exact t.suffice.ends _ _ _

theorem cost_jobTurn (t : Tariff r.settings.attemptCount) (boarded : Boarded r.flights r.agenda r.jobs)
    (popped : r.agenda.pop? = some (.job n, agenda)) (known : r.jobs[n]? = some job)
    (turn : JobTurn { r with agenda } n job r') : t.cost r' + t.turn ≤ t.cost r := by
  have before := t.burden_pop r.jobs popped
  cases turn with
  | waits stage behind =>
    have lower := t.burden_stage agenda known .waiting
    have cheaper := t.suffice.waits
    rw [stage] at lower
    unfold cost
    dsimp only
    omega
  | @sleeps flights total left progress after pending answers begins news memory sample delay attempts
      reported took fewer positive =>
    -- The sleep is paid for by the attempts that are left, one fewer than before.
    have lower := t.burden_stage agenda known (.attempting left after sample)
    have own : t.stage (.attempting left after sample) + t.waking ≤ t.stage job.stage :=
      stage_of_begins t begins (by omega)
    have asleep := Agenda.sleeping_wakeAfter_length agenda (.job n) positive
    have awake := Agenda.ready_wakeAfter agenda (.job n) positive
    unfold burden at before lower
    unfold cost burden
    simp only [asleep, awake, Nat.mul_succ]
    omega
  | concludes begins news memory attempts reported took all =>
    obtain ⟨underway, -⟩ := underway_of_begins boarded popped known begins
    exact t.cost_completed underway known (t.turn_of_begins begins) popped _ _
  | givesUp begins news memory attempts reported failed =>
    obtain ⟨underway, -⟩ := underway_of_begins boarded popped known begins
    exact t.cost_completed underway known (t.turn_of_begins begins) popped _ _
  | @ends outcome stage =>
    have lower := t.burden_stage agenda known (.done outcome)
    have paid := t.suffice.told outcome
    have woken := t.burden_wakeAll agenda (heeding r.rankings job.owner)
      (r.jobs.modify n (.atStage (.done outcome)))
    have short := t.turn_mul_heeding_le r.rankings job.owner
    have same := t.rankingCost_rankingsAfter r.rankings outcome job.owner
    rw [stage, t.suffice.done] at lower
    rw [finish_eq]
    unfold cost
    dsimp only
    omega
  | idle stage =>
    unfold cost
    dsimp only
    omega

theorem cost_setRanking {after : Ranker σ} {call' : RankingCall}
    (popped : r.agenda.pop? = some (.ranking c, agenda)) (known : r.rankings[c]? = some call)
    (rankings : after.rankings = r.rankings) (cancelled : call'.cancelled = call.cancelled)
    (spent : t.burden after.agenda after.jobs + t.miss * call'.undispatched ≤
      t.burden agenda r.jobs + t.miss * call.undispatched) :
    t.cost (after.setRanking c call') + t.turn ≤ t.cost r := by
  have before := t.burden_pop r.jobs popped
  have total := totalOf_set t.rankingCost known call'
  simp only [rankingCost, cancelled] at total
  unfold cost
  simp only [setRanking, rankings]
  change t.burden after.agenda after.jobs + totalOf t.rankingCost _ + _ ≤ _
  unfold rankingCost at *
  omega

theorem burden_spawnAll (c : Nat) {before : Ranker σ} {call' : RankingCall} {misses : List String}
    (sets : Sets { r with agenda } call before call' misses) (ips : List String) (left : Nat)
    (parts : ips.length + left ≤ misses.length) :
    let after := spawnAll call.domain (.ranking c) ips before
    after.rankings = r.rankings ∧ t.burden after.agenda after.jobs + t.miss * left ≤
      t.burden agenda r.jobs + t.miss * call.undispatched := by
  obtain ⟨refreshes, enlists, few, -⟩ := enlists_of_sets sets
  have enlists' := enlists_spawnAll call.domain (.ranking c) ips before
  have early := t.burden_enlists enlists
  have late := t.burden_enlists enlists'
  rw [List.length_map] at late
  have share := Nat.mul_le_mul_left t.miss
    (show refreshes.length + (ips.length + left) ≤ call.undispatched by omega)
  rw [Nat.mul_add, Nat.mul_add] at share
  refine ⟨enlists'.rankings.trans enlists.rankings, ?_⟩
  dsimp only at early
  omega

theorem cost_rankingTurn (popped : r.agenda.pop? = some (.ranking c, agenda))
    (known : r.rankings[c]? = some call) (turn : RankingTurn { r with agenda } c call r') :
    t.cost r' + t.turn ≤ t.cost r := by
  cases turn with
  | breaks sets stage many =>
    obtain ⟨rankings, spent⟩ := t.burden_spawnAll c sets [] 0 (Nat.zero_le _)
    exact t.cost_setRanking popped known rankings (sets_cancelled sets :) spent
  | @pauses before call' misses sets going few =>
    obtain ⟨rankings, spent⟩ := t.burden_spawnAll c sets (misses.take call'.permits)
      (misses.drop call'.permits).length (by rw [List.length_take, List.length_drop]; omega)
    exact t.cost_setRanking popped known rankings (sets_cancelled sets :) spent
  | @joins before call' misses sets going enough busy =>
    obtain ⟨rankings, spent⟩ := t.burden_spawnAll c sets misses 0 (Nat.le_refl _)
    exact t.cost_setRanking popped known rankings (sets_cancelled sets :) spent
  | returns sets over' =>
    obtain ⟨rankings, spent⟩ := t.burden_spawnAll c sets [] 0 (Nat.zero_le _)
    exact t.cost_setRanking popped known rankings (sets_cancelled sets :) spent
  | idle over' =>
    have before := t.burden_pop r.jobs popped
    unfold cost
    dsimp only
    omega

/-- Every turn is paid for. -/
theorem cost_turn (t : Tariff r.settings.attemptCount) (boarded : Boarded r.flights r.agenda r.jobs)
    (busy : r.agenda.ready ≠ []) (turn : Turn r r') : t.cost r' + t.turn ≤ t.cost r := by
  cases turn with
  | rests empty => exact absurd empty busy
  | ofJob popped known turn => exact t.cost_jobTurn boarded popped known turn
  | ofRanking popped known turn => exact t.cost_rankingTurn popped known turn
  | @ofCancel c agenda call popped known =>
    have before := t.burden_pop r.jobs popped
    have woken := t.burden_wakeAll agenda (heedingCancel call c) r.jobs
    have total := totalOf_modify t.rankingCost known .calledOff
    have paid : t.rankingCost call.calledOff + t.turn * (heedingCancel call c).length ≤
        t.rankingCost call := by
      have same : call.calledOff.undispatched = call.undispatched := rfl
      unfold rankingCost heedingCancel
      rw [same]
      cases cancelled : call.cancelled <;> cases waits : call.isWaiting <;>
        simp [RankingCall.calledOff]
    unfold cost afterCancel
    dsimp only
    omega
  | lapses popped noJob noRanking =>
    have before := t.burden_pop r.jobs popped
    unfold cost
    dsimp only
    omega

theorem cost_tick {later : Agenda Task} (ticked : r.agenda.tick? = some later) :
    t.cost { r with agenda := later } + t.waking ≤ t.cost r + t.turn := by
  have fewer := congrArg (t.waking * ·) (Agenda.sleeping_tick ticked)
  obtain ⟨time, task, rest, -, rfl⟩ := Agenda.tick?_eq_some ticked
  have awake := Nat.mul_le_mul_left t.turn (Agenda.ready_wake_length
    ({ r.agenda with now := max r.agenda.now time, sleeping := rest } : Agenda Task) task)
  rw [Nat.mul_succ] at fewer awake
  unfold cost burden
  dsimp only at fewer awake ⊢
  omega

end Turns

end Tariff

end LatencyRank
