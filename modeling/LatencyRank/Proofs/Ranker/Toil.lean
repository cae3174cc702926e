import Mathlib
import LatencyRank.Proofs.Ranker.Tally
import LatencyRank.Proofs.Ranker.Tariff

/-!
A ranker that is left alone comes to rest. What a job and a ranking can still cost is counted
together with the agenda; every turn and every move of time leaves less. At rest every ranking is
over: a job that waits has a job under way to wait for, and a ranking that waits has a job.
-/

namespace LatencyRank

namespace Ranker

variable {σ : Type}

section Toil

/-- Two for each attempt that a job can still make, and a waking costs two turns. -/
def toilPrices (attempts : Nat) : Prices where
  stage
    | .queued => 2 * attempts + 4
    | .waiting => 2 * attempts + 3
    | .attempting left _ _ => 2 * left + 3
    | .told _ => 2
    | .done _ => 0
  miss := 2 * attempts + 5
  turn := 1
  waking := 2

theorem toilPrices_suffice (attempts : Nat) : (toilPrices attempts).Suffice attempts where
  waits := Nat.le_succ _
  begins left _ _ fewer := by dsimp only [toilPrices]; omega
  goesOn left left' _ _ _ _ fewer := by dsimp only [toilPrices]; omega
  ends left _ _ := by dsimp only [toilPrices]; omega
  telling _ := by dsimp only [toilPrices]; omega
  told _ := one_le_two
  done _ := rfl
  spawning := Nat.le_refl _

def toilsome (attempts : Nat) : Tariff attempts := ⟨toilPrices attempts, toilPrices_suffice attempts⟩

def toil (r : Ranker σ) : Nat := (toilsome r.settings.attemptCount).cost r

variable {r r' : Ranker σ}

theorem toil_turn (boarded : Boarded r.flights r.agenda r.jobs) (busy : r.agenda.ready ≠ [])
    (turn : Turn r r') : r'.toil < r.toil := by
  have paid := Tariff.cost_turn (toilsome r.settings.attemptCount) boarded busy turn
  rw [toil, (fixed_of_turn turn).1]
  exact paid

end Toil

section Rest

variable {r : Ranker σ}

/-- What comes next when a ranker is left alone: a turn while a task can run, and then time moves. -/
def nextAct (r : Ranker σ) : Act σ := if r.agenda.ready = [] then .tick else .turn

/-- The acts of a ranker that is left alone for some steps. -/
def alone : Nat → Ranker σ → List (Act σ)
  | 0, _ => []
  | steps + 1, r => r.nextAct :: alone steps (r.perform r.nextAct)

def Quiet (r : Ranker σ) : Prop := r.agenda.ready = [] ∧ r.agenda.sleeping = []

theorem requested_alone (steps : Nat) (r : Ranker σ) : requested (alone steps r) = [] := by
  induction steps generalizing r with
  | zero => rfl
  | succ steps ih =>
      have first : requested [r.nextAct] = [] := by
        unfold nextAct
        split <;> rfl
      rw [alone, requested_cons, first, ih]
      rfl

theorem toil_nextAct (boarded : Boarded r.flights r.agenda r.jobs) (busy : ¬r.Quiet) :
    (r.perform r.nextAct).toil < r.toil := by
  unfold nextAct
  split
  · rename_i empty
    have asleep : r.agenda.sleeping ≠ [] := fun none' => busy ⟨empty, none'⟩
    cases ticked : r.agenda.tick? with
    | none => exact absurd (Agenda.tick?_eq_none.mp ticked) asleep
    | some later =>
        have moved := Tariff.cost_tick (toilsome r.settings.attemptCount) ticked
        simp only [perform, tick?, ticked, Option.map_some, Option.getD_some]
        have waking : (toilsome r.settings.attemptCount).waking = 2 := rfl
        have turn : (toilsome r.settings.attemptCount).turn = 1 := rfl
        unfold toil
        dsimp only
        omega
  · rename_i some'
    exact toil_turn boarded some' (turn_perform r)

/-- A ranker that is left alone has nothing to do after some steps. -/
theorem quiet_eventually (r : Ranker σ) (boarded : Boarded r.flights r.agenda r.jobs) :
    ∃ steps, (r.after (alone steps r)).Quiet := by
  induction toil : r.toil using Nat.strong_induction_on generalizing r with
  | _ left ih =>
      by_cases quiet : r.Quiet
      · exact ⟨0, quiet⟩
      · have less := toil_nextAct boarded quiet
        have boarded' := boarded_perform r r.nextAct boarded
        obtain ⟨steps, rests⟩ := ih _ (toil ▸ less) (r.perform r.nextAct) boarded' rfl
        exact ⟨steps + 1, rests⟩

theorem done_of_quiet (boarded : Boarded r.flights r.agenda r.jobs) (quiet : r.Quiet) {n : Nat}
    {job : Job} (known : r.jobs[n]? = some job) : job.isDone = true := by
  have nobody (m : Nat) : r.agenda.summons.count (.job m) = 0 := by
    simp [Agenda.summons, quiet.1, quiet.2]
  have placed := boarded.placed n job id known
  have calls := placed.calls
  rw [nobody] at calls
  cases stage : job.stage with
  | waiting =>
      -- somebody makes the measurement that it waits for, and so has to be on the agenda
      obtain ⟨flight, found, -⟩ := placed.awaits.mpr stage
      obtain ⟨m, manned⟩ := Option.ne_none_iff_exists'.mp (boarded.manned job.key flight found)
      obtain ⟨other, known', sameKey⟩ := boarded.aboard job.key m (Or.inl ⟨flight, found, manned⟩)
      have placed' := boarded.placed m other id known'
      have attempts := placed'.runs.mp (sameKey ▸ ⟨flight, found, manned⟩)
      have calls' := placed'.calls
      rw [nobody] at calls'
      unfold Job.isAttempting at attempts
      split at attempts
      · rename_i stage'
        simp [stage', JobStage.calls] at calls'
      · cases attempts
  | done outcome => simp [Job.isDone, stage]
  | _ => simp [stage, JobStage.calls] at calls

theorem over_of_quiet (boarded : Boarded r.flights r.agenda r.jobs) (accounted : Accounted r)
    (quiet : r.Quiet) {c : Nat} {call : RankingCall} (known : r.rankings[c]? = some call) :
    call.isOver = true := by
  have idle : live c r.jobs = 0 := by
    refine totalOf_eq_zero fun job member => ?_
    obtain ⟨n, known'⟩ := List.mem_iff_getElem?.mp member
    simp [liveOf, done_of_quiet boarded quiet known']
  have positive : 0 < jobLimit r.settings := Nat.lt_of_lt_of_le Nat.one_pos (Nat.le_max_right _ _)
  have seated := accounted.seated c call id known
  unfold Seated at seated
  cases stage : call.stage with
  | expected =>
      rw [stage] at seated
      have summoned := seated.2.2.2
      simp [Agenda.summons, quiet.1, quiet.2] at summoned
  | dispatching misses =>
      rw [stage] at seated
      obtain ⟨-, balanced, queued | ⟨-, none'⟩⟩ := seated
      · simp [quiet.1] at queued
      · have running := balanced.running
        have permits := balanced.permits
        omega
  | joining =>
      rw [stage] at seated
      obtain ⟨balanced, queued | ⟨-, some'⟩⟩ := seated
      · simp [quiet.1] at queued
      · have running := balanced.running
        omega
  | returned results time => simp [RankingCall.isOver, stage]
  | broken => simp [RankingCall.isOver, stage]

end Rest

end Ranker

end LatencyRank
