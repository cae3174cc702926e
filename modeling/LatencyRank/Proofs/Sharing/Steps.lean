import Mathlib
import LatencyRank.Schedule.Sharing
import LatencyRank.Proofs.Schedule.Agenda
import LatencyRank.Proofs.Schedule.Flights
import LatencyRank.Proofs.Schedule.Places

/-!
What one step does. Time moves on, or the first of the queue has its turn. A turn is told by what
its caller does at its stage; a probe that ends and a caller that leaves are told field by field.
What every step keeps is shown from here.
-/

namespace LatencyRank.Sharing

open Flights

variable (s : Sharing) (n : Nat)

section Fields

theorem tellAll_eq (outcome : Measurement) (waiting : List Nat) :
    waiting.foldl (tell outcome) s =
      { s with
        stages := modifyAll (fun _ => .told outcome) waiting s.stages
        agenda := s.agenda.wakeAll (waiting.map .resume) } := by
  induction waiting generalizing s with
  | nil => rfl
  | cons m rest ih =>
      rw [List.foldl_cons, ih, tell, setStage, List.set_eq_modify]
      rfl

theorem finish_eq (caller : Caller) :
    s.finish n caller =
      { s with
        flights := (s.flights.land caller.key).1
        stages := (modifyAll (fun _ => .told caller.probe) (s.flights.land caller.key).2 s.stages).set
          n (.done caller.probe s.now)
        agenda := s.agenda.wakeAll ((s.flights.land caller.key).2.map .resume)
        log := .answered n s.now :: .ended n s.now :: s.log } := by
  unfold finish
  simp only [tellAll_eq]
  simp [answer, setStage, note, now]

theorem wakeHeir_eq (heir : Option Nat) :
    heir.elim s s.wake = { s with agenda := s.agenda.wakeAll (heir.toList.map .resume) } := by
  cases heir <;> rfl

end Fields

section Stages

theorem stage_finish (caller : Caller) {m : Nat} {stage : CallerStage}
    (at' : (s.finish n caller).stages[m]? = some stage) :
    (m = n ∧ stage = .done caller.probe s.now) ∨
      (m ≠ n ∧ m ∈ (s.flights.land caller.key).2 ∧ stage = .told caller.probe) ∨
      (m ≠ n ∧ m ∉ (s.flights.land caller.key).2 ∧ s.stages[m]? = some stage) := by
  rw [finish_eq] at at'
  rcases getElem?_of_set at' with mine | ⟨different, others⟩
  · exact Or.inl mine
  · rw [getElem?_modifyAll (fun _ => CallerStage.told caller.probe) fun _ => rfl] at others
    split at others
    · rename_i told
      obtain ⟨old, -, rfl⟩ := Option.map_eq_some_iff.mp others
      exact Or.inr (Or.inl ⟨different, told, rfl⟩)
    · rename_i outside
      exact Or.inr (Or.inr ⟨different, outside, others⟩)

/-- The caller has its outcome or was called off, and takes no further turn. -/
def Over (stage : CallerStage) : Prop :=
  (∃ outcome time, stage = .done outcome time) ∨ stage = .calledOff

end Stages

section Turns

theorem resume_of_over (ended : ∀ caller stage, s.callers[n]? = some caller →
    s.stages[n]? = some stage → Over stage) : s.resume n = s := by
  unfold resume
  split
  · rename_i caller stage known at'
    rcases ended caller stage known at' with ⟨outcome, time, rfl⟩ | rfl <;> rfl
  · rfl

/-- Any property of what a caller's turn leads to, from what it does at each of its stages. -/
theorem resume_cases {motive : Sharing → Prop}
    (spared : (∀ caller stage, s.callers[n]? = some caller → s.stages[n]? = some stage →
      Over stage) → motive s)
    (expected : ∀ caller, s.callers[n]? = some caller → s.stages[n]? = some .expected →
      motive (s.arrive n caller))
    (waiting : ∀ caller, s.callers[n]? = some caller → s.stages[n]? = some .waiting →
      motive (s.probe n caller))
    (probing : ∀ caller, s.callers[n]? = some caller → s.stages[n]? = some .probing →
      motive (s.finish n caller))
    (told : ∀ caller outcome, s.callers[n]? = some caller → s.stages[n]? = some (.told outcome) →
      motive (s.answer n outcome)) : motive (s.resume n) := by
  unfold resume
  cases known : s.callers[n]? with
  | none => exact spared fun caller stage known' => by simp [known] at known'
  | some caller =>
      cases at' : s.stages[n]? with
      | none => exact spared fun caller stage _ at'' => by simp [at'] at at''
      | some stage =>
          have motionless (settled : Over stage) : motive s :=
            spared fun other stage' _ at'' => Option.some.inj (at'.symm.trans at'') ▸ settled
          cases stage with
          | expected => exact expected caller known at'
          | waiting => exact waiting caller known at'
          | probing => exact probing caller known at'
          | told outcome => exact told caller outcome known at'
          | done outcome time => exact motionless (Or.inl ⟨outcome, time, rfl⟩)
          | calledOff => exact motionless (Or.inr rfl)

/-- A caller that is over stays as it is. Any other leaves its flight and is not summoned any more,
and the heir of the flight is. -/
theorem callOff_eq {caller : Caller} {stage : CallerStage} (known : s.callers[n]? = some caller)
    (at' : s.stages[n]? = some stage) (busy : ¬Over stage) :
    s.callOff n =
      { s with
        flights := (s.flights.leave caller.key n).1
        stages := s.stages.set n .calledOff
        agenda := (s.agenda.forget (.resume n)).wakeAll
          ((s.flights.leave caller.key n).2.toList.map .resume)
        log := .calledOff n s.now :: s.log } := by
  unfold callOff
  rw [known, at']
  cases stage
  case done outcome time => exact absurd (Or.inl ⟨outcome, time, rfl⟩) busy
  case calledOff => exact absurd (Or.inr rfl) busy
  all_goals simp [wakeHeir_eq, setStage, note, now, Agenda.forget]

theorem callOff_of_over (ended : ∀ caller stage, s.callers[n]? = some caller →
    s.stages[n]? = some stage → Over stage) : s.callOff n = s := by
  unfold callOff
  split
  · rename_i caller stage known at'
    rcases ended caller stage known at' with ⟨outcome, time, rfl⟩ | rfl <;> rfl
  · rfl

theorem callOff_cases :
    (s.callOff n = s ∧ ∀ caller stage, s.callers[n]? = some caller → s.stages[n]? = some stage →
      Over stage) ∨
    ∃ caller stage, s.callers[n]? = some caller ∧ s.stages[n]? = some stage ∧ ¬Over stage := by
  by_cases ended : ∀ caller stage, s.callers[n]? = some caller → s.stages[n]? = some stage → Over stage
  · exact Or.inl ⟨callOff_of_over s n ended, ended⟩
  · push Not at ended
    obtain ⟨caller, stage, known, at', busy⟩ := ended
    exact Or.inr ⟨caller, stage, known, at', busy⟩

variable {s}

theorem step_of_pop {alarm : Alarm} {agenda : Agenda Alarm}
    (popped : s.agenda.pop? = some (alarm, agenda)) :
    s.step? = some (Sharing.handle { s with agenda } alarm) := by
  rw [step?, popped]

/-- With nothing queued time moves on; otherwise the first of the queue has its turn. -/
theorem step_cases {s' : Sharing} (stepped : s.step? = some s') :
    (∃ agenda, s.agenda.ready = [] ∧ s.agenda.tick? = some agenda ∧ s' = { s with agenda }) ∨
      ∃ alarm agenda, s.agenda.pop? = some (alarm, agenda) ∧
        s' = Sharing.handle { s with agenda } alarm := by
  cases popped : s.agenda.pop? with
  | none =>
      rw [step?, popped] at stepped
      obtain ⟨agenda, ticked, rfl⟩ := Option.map_eq_some_iff.mp stepped
      exact Or.inl ⟨agenda, Agenda.pop?_eq_none.mp popped, ticked, rfl⟩
  | some next =>
      obtain ⟨alarm, agenda⟩ := next
      cases (step_of_pop popped).symm.trans stepped
      exact Or.inr ⟨alarm, agenda, rfl, rfl⟩

end Turns

end LatencyRank.Sharing
