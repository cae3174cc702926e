import Mathlib
import LatencyRank.Proofs.Ranker.Attendance

/-!
What can become of one job with one act. It stays as it is, or it takes the turn that it is called for,
or it has waited and is told. Whoever comes to an outcome has it from a measurement that a job of its
pair makes to the end with this act, or knew it before.
-/

namespace LatencyRank

/-- The outcome that a job knows, its own or a shared one. -/
def Job.heard? (job : Job) : Option Measurement :=
  match job.stage with
  | .told outcome | .done outcome => some outcome
  | .queued | .waiting | .attempting .. => none

namespace Ranker

variable {σ : Type}

section Making

variable {r r' : Ranker σ} {agenda : Agenda Task} {n m : Nat} {job job' : Job} {key : String}
  {outcome : Measurement}

/-- A job makes the measurement of a pair to its end, with answers of its own. -/
structure Makes (r r' : Ranker σ) (k : Nat) (key : String) (outcome : Measurement) : Prop where
  ended : ∃ leader, r'.jobs[k]? = some leader ∧ leader.key = key ∧ leader.stage = .done outcome
  answered : answersOf k r'.journal ≠ []
  event : ∃ news wall, r'.journal = news ++ r.journal ∧ .measured k outcome wall ∈ news

/-- All that can become of a job. -/
inductive Moves (r r' : Ranker σ) (n : Nat) (job' : Job) : Prop
  | still (known : r.jobs[n]? = some job')
  | fresh (new : r.jobs.length ≤ n) (stage : job'.stage = .queued)
  | waits {job : Job} (known : r.jobs[n]? = some job) (stage : job.stage = .queued)
      (behind : ∃ k other, k ≠ n ∧ r.jobs[k]? = some other ∧ other.isAttempting = true ∧
        other.key = job.key) (shape : job' = job.atStage .waiting)
  | attempts {job : Job} {left : Nat} {progress : Progress} {sample : Option Sample}
      (known : r.jobs[n]? = some job) (notDone : job.isDone = false)
      (shape : job' = job.atStage (.attempting left progress sample))
  | makes {job : Job} {outcome : Measurement} (known : r.jobs[n]? = some job)
      (notDone : job.isDone = false) (shape : job' = job.atStage (.done outcome))
      (makes : Makes r r' n job.key outcome)
  | told {job : Job} {outcome : Measurement} {k : Nat} (known : r.jobs[n]? = some job)
      (waited : job.stage = .waiting) (shape : job' = job.atStage (.told outcome))
      (makes : Makes r r' k job.key outcome)
  | ends {job : Job} {outcome : Measurement} (known : r.jobs[n]? = some job)
      (stage : job.stage = .told outcome) (shape : job' = job.atStage (.done outcome))

theorem answered_of_begins {flights : Flights} {total : Nat} {before : Progress}
    {pending answers : List (Option Sample)} (begins : Begins r n job flights total before pending)
    (ends : total = answers.length ∨ before.takeAll (pending ++ answers) = none) :
    pending ++ answers ≠ [] := by
  intro nothing
  rcases ends with all | failed
  · obtain ⟨rfl, rfl⟩ := List.append_eq_nil_iff.mp nothing
    cases begins with
    | first stage runs => exact absurd all (Nat.ne_of_gt (attemptCount_pos _))
    | again stage => exact absurd all (Nat.ne_of_gt (attemptCount_pos _))
  · rw [nothing] at failed
    cases failed

theorem moves_completed {flights : Flights} {result : Measurement} {memory : σ}
    {news : List RankerEvent} {answers : List (Option Sample)}
    (underway : Underway flights agenda r.jobs n job) (known : r.jobs[n]? = some job)
    (notDone : job.isDone = false)
    (shape : r' = completed { r with agenda, flights, memory, journal := news ++ r.journal } n job result)
    (attempts : Attempts n job agenda.now news answers) (some' : answers ≠ [])
    (known' : r'.jobs[m]? = some job') : Moves r r' m job' := by
  have jobs : r'.jobs =
      (toldAll result (flights.land job.key).2 r.jobs).modify n (.atStage (.done result)) := by
    rw [shape]
    rfl
  have ended : r'.jobs[n]? = some (job.atStage (.done result)) := by
    rw [jobs]
    exact job_completed underway known result
  obtain ⟨wall, journal⟩ : ∃ wall, r'.journal =
      [.finished n agenda.now, .measured n result wall] ++ (news ++ r.journal) :=
    ⟨_, by rw [shape]; rfl⟩
  have makes : Makes r r' n job.key result := by
    refine ⟨⟨_, ended, rfl, rfl⟩, ?_, ⟨_, wall, by rw [journal, ← List.append_assoc], by simp⟩⟩
    rw [journal, answersOf_news (by simp), answersOf_append, attempts.answers]
    exact fun nothing => some' (List.append_eq_nil_iff.mp nothing).2
  rw [jobs] at known'
  rcases job_of_completed underway known known' with
    ⟨rfl, rfl⟩ | ⟨old, before, -, rfl | ⟨waited, sameKey, rfl⟩⟩
  · exact .makes known notDone rfl makes
  · exact .still before
  · exact .told before waited rfl (sameKey ▸ makes)

/-- A job that comes second finds another at its pair. -/
theorem runner_of_behind (boarded : Boarded r.flights r.agenda r.jobs) (known : r.jobs[n]? = some job)
    (stage : job.stage = .queued) (behind : (r.flights.join job.key n).2.runs ≠ true) :
    ∃ k other, k ≠ n ∧ r.jobs[k]? = some other ∧ other.isAttempting = true ∧ other.key = job.key := by
  obtain ⟨flight, found⟩ : ∃ flight, r.flights.find? job.key = some flight := by
    cases found : r.flights.find? job.key with
    | none => simp [Flights.join, found] at behind
    | some flight => exact ⟨flight, rfl⟩
  obtain ⟨k, runner⟩ := Option.ne_none_iff_exists'.mp (boarded.manned job.key flight found)
  have runs : r.flights.Runs job.key k := ⟨flight, found, runner⟩
  obtain ⟨other, known', sameKey⟩ := boarded.aboard job.key k (Or.inl runs)
  have attempts := (boarded.placed k other id known').runs.mp (sameKey ▸ runs)
  refine ⟨k, other, ?_, known', attempts, sameKey⟩
  rintro rfl
  cases known.symm.trans known'
  simp [Job.isAttempting, stage] at attempts

theorem moves_jobTurn (boarded : Boarded r.flights r.agenda r.jobs)
    (popped : r.agenda.pop? = some (.job n, agenda)) (known : r.jobs[n]? = some job)
    (turn : JobTurn { r with agenda } n job r') (known' : r'.jobs[m]? = some job') :
    Moves r r' m job' := by
  have staged {stage : JobStage} (jobs : r'.jobs = r.jobs.modify n (.atStage stage))
      (own : m = n → job' = job.atStage stage → Moves r r' n (job.atStage stage)) :
      Moves r r' m job' := by
    rw [jobs] at known'
    obtain ⟨old, before, ⟨rfl, rfl⟩ | ⟨-, rfl⟩⟩ := getElem?_modified known'
    · cases before.symm.trans known
      exact own rfl rfl
    · exact .still before
  cases turn with
  | waits stage behind =>
    exact staged rfl fun _ _ => .waits known stage (runner_of_behind boarded known stage behind) rfl
  | sleeps begins news memory sample delay attempts reported took fewer positive =>
    exact staged rfl fun _ _ => .attempts known (open_of_begins begins) rfl
  | concludes begins news memory attempts reported took all =>
    obtain ⟨underway, -⟩ := underway_of_begins boarded popped known begins
    exact moves_completed underway known (open_of_begins begins) rfl attempts
      (answered_of_begins begins (Or.inl all)) known'
  | givesUp begins news memory attempts reported failed =>
    obtain ⟨underway, -⟩ := underway_of_begins boarded popped known begins
    exact moves_completed underway known (open_of_begins begins) rfl attempts
      (answered_of_begins begins (Or.inr failed)) known'
  | ends stage =>
    rw [finish_eq] at known' staged ⊢
    exact staged rfl fun _ _ => .ends known stage rfl
  | idle stage => exact .still known'

theorem moves_perform (boarded : Boarded r.flights r.agenda r.jobs) (act : Act σ)
    (known' : (r.perform act).jobs[n]? = some job') : Moves r (r.perform act) n job' := by
  rcases outcome_perform r act with ⟨-, turn⟩ | aside
  · generalize r.perform act = r' at known' turn
    cases turn with
    | ofJob popped known turn => exact moves_jobTurn boarded popped known turn known'
    | ofRanking popped known turn =>
      rcases recruits_of_turn turn with rfl | ⟨recruits, r'', call'', news, enlisted, rfl, -⟩
      · exact .still known'
      · have more : r''.jobs = r.jobs ++ recruits := enlisted.enlists.jobs
        have known'' := known'
        simp only [setRanking, more, List.getElem?_append] at known''
        split at known''
        · exact .still known''
        · rename_i outside
          exact .fresh (Nat.not_lt.mp outside)
            (enlisted.enlists.fresh job' (List.mem_of_getElem? known''))
    | _ => exact .still known'
  · rw [aside.still.1] at known'
    exact .still known'

/-- Whoever knows an outcome after an act knew it before, or a job of its pair came to it with this
act. -/
theorem Moves.heard (moves : Moves r r' n job') (heard : job'.heard? = some outcome) :
    (∃ job, r.jobs[n]? = some job ∧ job.key = job'.key ∧ job.heard? = some outcome) ∨
      ∃ k, Makes r r' k job'.key outcome := by
  cases moves with
  | still known => exact Or.inl ⟨job', known, rfl, heard⟩
  | fresh new stage => simp [Job.heard?, stage] at heard
  | waits known stage behind shape =>
    rw [shape] at heard
    cases heard
  | attempts known notDone shape =>
    rw [shape] at heard
    cases heard
  | makes known notDone shape makes =>
    subst shape
    cases heard
    exact Or.inr ⟨n, makes⟩
  | told known waited shape makes =>
    subst shape
    cases heard
    exact Or.inr ⟨_, makes⟩
  | @ends job outcome' known stage shape =>
    subst shape
    cases heard
    exact Or.inl ⟨job, known, rfl, by rw [Job.heard?, stage]⟩

end Making

end Ranker

end LatencyRank
