import Mathlib
import LatencyRank.Proofs.Ranker.Chronicle
import LatencyRank.Proofs.Ranker.Moves
import LatencyRank.Proofs.Ranker.Toil

/-!
Who measured what a job was told. Whoever has an outcome has it from a job of its pair that made the
measurement to its end, perhaps itself. So a job that is left alone comes to an outcome, and the
histories and the cache have taken that outcome down once.
-/

namespace LatencyRank

namespace Ranker

variable {σ : Type}

section Leading

/-- A job has made the measurement of a pair to its end, with this outcome. -/
def Settled (r : Ranker σ) (key : String) (outcome : Measurement) : Prop :=
  ∃ (k : Nat) (leader : Job), r.jobs[k]? = some leader ∧ leader.key = key ∧
    leader.stage = .done outcome ∧ Complete r.settings.attemptCount (answersOf k r.journal)

/-- Every job that knows an outcome has it from a measurement of its pair. -/
def Led (r : Ranker σ) : Prop :=
  ∀ (n : Nat) (job : Job) outcome, r.jobs[n]? = some job → job.heard? = some outcome →
    r.Settled job.key outcome

variable {r r' : Ranker σ} {agenda : Agenda Task} {n m : Nat} {job job' : Job} {key : String}
  {outcome : Measurement}

theorem answers_of_complete (agree : JobsAgree r) (act : Act σ)
    (complete : Complete r.settings.attemptCount (answersOf n r.journal)) :
    answersOf n (r.perform act).journal = answersOf n r.journal := by
  obtain ⟨takes, -⟩ := taken_perform agree.boarded agree.attends act
  cases takes with
  | none lasts deeds => exact lasts n (Or.inl complete)
  | one m job turn concludes deeds =>
    have different : n ≠ m := fun same => concludes.incomplete (same ▸ complete)
    exact concludes.others n different

theorem Settled.perform (agree : JobsAgree r) (settled : r.Settled key outcome) (act : Act σ) :
    (r.perform act).Settled key outcome := by
  obtain ⟨k, leader, known, sameKey, stage, complete⟩ := settled
  obtain ⟨stage', known'⟩ := job_perform r act known
  have answers := answers_of_complete agree act complete
  have settings : (r.perform act).settings = r.settings := (fixed_perform r act).1
  have complete' : Complete (r.perform act).settings.attemptCount
      (answersOf k (r.perform act).journal) := by
    rw [settings, answers]
    exact complete
  have early := done_of_complete agree.attends known complete
  have late := done_of_complete (agree.perform act).attends known' complete'
  refine ⟨k, _, known', sameKey, ?_, complete'⟩
  rw [late, ← stage, early, settings, answers]
  rfl

/-- What a job can know after an act: what it knew before, or what was measured of its pair by then. -/
def Learns (r r' : Ranker σ) (m : Nat) (job' : Job) (outcome : Measurement) : Prop :=
  (∃ job, r.jobs[m]? = some job ∧ job.key = job'.key ∧ job.heard? = some outcome) ∨
    r'.Settled job'.key outcome

theorem settled_of_makes (attends : Attends r') {k : Nat} (makes : Makes r r' k key outcome) :
    r'.Settled key outcome := by
  obtain ⟨leader, known, sameKey, stage⟩ := makes.ended
  have attended := attends.attended k leader known
  rw [stage] at attended
  exact ⟨k, leader, known, sameKey, stage, (attended.resolve_left makes.answered).1⟩

theorem learns_perform (agree : JobsAgree r) (act : Act σ) (known' : (r.perform act).jobs[m]? = some job')
    (heard : job'.heard? = some outcome) : Learns r (r.perform act) m job' outcome :=
  ((moves_perform agree.boarded act known').heard heard).imp_right fun ⟨_, makes⟩ =>
    settled_of_makes (agree.perform act).attends makes

theorem Led.perform (led : Led r) (agree : JobsAgree r) (act : Act σ) : Led (r.perform act) := by
  intro m job' outcome known' heard
  rcases learns_perform agree act known' heard with ⟨job, known, sameKey, heard'⟩ | settled
  · exact sameKey ▸ (led m job outcome known heard').perform agree act
  · exact settled

theorem led_after (agree : JobsAgree r) (nobody : r.jobs = []) (acts : List (Act σ)) :
    Led (r.after acts) := by
  induction acts using List.reverseRecOn with
  | nil =>
    intro n job outcome known heard
    have nothing : r.jobs[n]? = some job := known
    rw [nobody] at nothing
    cases nothing
  | append_singleton acts act ih =>
    rw [after_append]
    exact ih.perform (agree.after acts) act

end Leading

section Finishing

variable {start : Ranker σ}

/-- A job has made the measurement of a pair in a course, with this outcome, and that is due once. -/
def MeasuredOnce (start : Ranker σ) (acts : List (Act σ)) (key : String) (outcome : Measurement) : Prop :=
  ∃ (front back : List (Act σ)) (k : Nat) (leader : Job),
    leader.key = key ∧ leader.stage = .done outcome ∧ Measures start acts front back k leader

theorem job_after (r : Ranker σ) (acts : List (Act σ)) {n : Nat} {job : Job}
    (known : r.jobs[n]? = some job) : ∃ stage, (r.after acts).jobs[n]? = some (job.atStage stage) := by
  induction acts using List.reverseRecOn with
  | nil => exact ⟨job.stage, known⟩
  | append_singleton acts act ih =>
    obtain ⟨stage, known'⟩ := ih
    obtain ⟨stage', known''⟩ := job_perform (r.after acts) act known'
    rw [after_append]
    exact ⟨stage', known''⟩

/-- What a job that is done came to was measured once, by itself or by another of its pair. -/
theorem measuredOnce_of_done (agree : JobsAgree start) (silent : start.journal = [])
    (nobody : start.jobs = [])
    {acts : List (Act σ)} {n : Nat} {job : Job} {outcome : Measurement}
    (known : (start.after acts).jobs[n]? = some job) (stage : job.stage = .done outcome) :
    MeasuredOnce start acts job.key outcome := by
  have heard : job.heard? = some outcome := by rw [Job.heard?, stage]
  obtain ⟨k, leader, known', sameKey, stage', complete⟩ :=
    led_after agree nobody acts n job outcome known heard
  rw [settings_after] at complete
  obtain ⟨front, back, leader', measures⟩ := (once_after agree silent acts k).complete complete
  have same : leader' = leader := Option.some.inj (measures.known.symm.trans known')
  exact ⟨front, back, k, leader, sameKey, stage', same ▸ measures⟩

/-- Left alone, a ranker comes to have done all its jobs, whoever they belong to. -/
theorem done_eventually {r : Ranker σ} (boarded : Boarded r.flights r.agenda r.jobs) :
    ∃ steps, ∀ (n : Nat) (job : Job), r.jobs[n]? = some job →
      ∃ outcome, (r.after (alone steps r)).jobs[n]? = some (job.atStage (.done outcome)) := by
  obtain ⟨steps, quiet⟩ := quiet_eventually r boarded
  have boarded' := after_induction (motive := fun r : Ranker σ => Boarded r.flights r.agenda r.jobs)
    boarded_perform boarded (alone steps r)
  refine ⟨steps, fun n job known => ?_⟩
  obtain ⟨stage, known'⟩ := job_after r (alone steps r) known
  have done := done_of_quiet boarded' quiet known'
  cases stage with
  | done outcome => exact ⟨outcome, known'⟩
  | _ => cases done

end Finishing

end Ranker

end LatencyRank
