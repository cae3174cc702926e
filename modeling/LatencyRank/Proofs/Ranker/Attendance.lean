import Mathlib
import LatencyRank.Proofs.Ranker.Boarding

/-!
The answers that a job has had, and what it is due for them. A job that has not begun, or was told
another's outcome, has had none; one under way has had as many as its progress says; and with the
answer that makes its measurement complete, and no other, the histories and the cache take the
measurement down.
-/

namespace LatencyRank

namespace Ranker

variable {σ : Type}

section Answers

theorem answersOf_news {n : Nat} {news : List RankerEvent}
    (foreign : ∀ event ∈ news, ∀ sample time, event ≠ .answered n sample time)
    (journal : List RankerEvent) : answersOf n (news ++ journal) = answersOf n journal := by
  rw [answersOf_append]
  have silent : answersOf n news = [] := by
    unfold answersOf
    rw [List.reverse_eq_nil_iff, List.filterMap_eq_nil_iff]
    intro event member
    cases event with
    | answered m sample time =>
        have other : m ≠ n := fun same => foreign _ member sample time (same ▸ rfl)
        simp [other]
    | _ => rfl
  rw [silent, List.append_nil]

theorem answersOf_completed (r : Ranker σ) (n m : Nat) (job : Job) (outcome : Measurement) :
    answersOf m (r.completed n job outcome).journal = answersOf m r.journal := by
  have foreign : ∀ event ∈ [.finished n r.agenda.now, .measured n outcome r.wall],
      ∀ sample time, event ≠ RankerEvent.answered m sample time := by simp
  exact answersOf_news foreign r.journal

theorem Attempts.others {n m : Nat} {job : Job} {now : Nat} {news : List RankerEvent}
    {answers : List (Option Sample)} (attempts : Attempts n job now news answers) (different : m ≠ n)
    (journal : List RankerEvent) : answersOf m (news ++ journal) = answersOf m journal := by
  refine answersOf_news (fun event member sample time same => ?_) journal
  rcases attempts.only event member with asked | ⟨other, answered⟩
  · rw [asked] at same
    cases same
  · rw [answered] at same
    cases same
    exact different rfl

/-- What the histories are to take down for such answers: a fast failure if the first attempt failed,
a success if no attempt was lost, and a failure otherwise. -/
def verdictOf (ip : String) (answers : List (Option Sample)) (wall : Int) : HistoryBook.Entry :=
  if answers.head? = some none then .fastFailed ip wall
  else if none ∈ answers then .failed ip wall
  else .succeeded ip

theorem not_complete_nil (s : Settings) : ¬Complete s.attemptCount [] :=
  not_complete_of_taken (p := {}) rfl (attemptCount_pos s)

/-- All attempts were made: the result is the conclusion, and the histories take it down so. -/
theorem result_of_taken {s : Settings} {answers : List (Option Sample)} {progress : Progress}
    (taken : ({} : Progress).takeAll answers = some progress) (all : answers.length = s.attemptCount)
    (ip : String) (wall : Int) :
    resultOf s ip answers = progress.conclude ip s.strategy ∧
      verdict (resultOf s ip answers) wall = verdictOf ip answers wall := by
  have result : resultOf s ip answers = progress.conclude ip s.strategy := by
    rw [resultOf, ← all]
    exact measure_of_taken taken ip s.strategy
  have some' : answers ≠ [] := by
    rintro rfl
    exact absurd all (Nat.ne_of_lt (attemptCount_pos s))
  have began := Progress.began_of_taken taken
  obtain ⟨lossless, -⟩ := conclude_of_taken taken some' ip s.strategy
  refine ⟨result, ?_⟩
  rw [result]
  unfold verdict verdictOf
  rw [if_neg (by simp [not_abandoned_conclude]), if_neg began, ip_conclude]
  by_cases lost : none ∈ answers
  · rw [if_neg (fun zero => lossless.mp zero lost), if_pos lost]
  · rw [if_pos (lossless.mpr lost), if_neg lost]

theorem result_of_lost {s : Settings} {answers : List (Option Sample)}
    (lost : answers.head? = some none) (ip : String) (wall : Int) :
    resultOf s ip answers = .givenUp ip ∧
      verdict (resultOf s ip answers) wall = verdictOf ip answers wall := by
  have result : resultOf s ip answers = .givenUp ip :=
    measure_of_lost lost (attemptCount_pos s) ip s.strategy
  refine ⟨result, ?_⟩
  rw [result, verdictOf, if_pos lost]
  rfl

end Answers

section Attendance

/-- The answers that a job for an address has had at a stage. -/
def Attended (s : Settings) (prober : Prober σ) (ip : String) (answers : List (Option Sample)) :
    JobStage → Prop
  | .queued | .waiting | .told _ => answers = []
  | .attempting left progress sample =>
      ({} : Progress).takeAll answers = some progress ∧
        answers.length + left + 1 = s.attemptCount ∧ prober.Reports sample
  | .done outcome =>
      answers = [] ∨ (Complete s.attemptCount answers ∧ outcome = resultOf s ip answers)

/-- Every job has had the answers that its stage says, all of them from the prober. -/
structure Attentive (s : Settings) (prober : Prober σ) (journal : List RankerEvent)
    (jobs : List Job) : Prop where
  attended : ∀ n job, jobs[n]? = some job →
    Attended s prober job.ip (answersOf n journal) job.stage
  unborn : ∀ n, jobs.length ≤ n → answersOf n journal = []
  reported : ∀ n, ∀ answer ∈ answersOf n journal, prober.Reports answer

variable {s : Settings} {prober : Prober σ} {journal journal' : List RankerEvent}
  {jobs jobs' : List Job} {n : Nat}

theorem Attentive.update (attentive : Attentive s prober journal jobs)
    (inside : n < jobs.length) (length : jobs'.length = jobs.length)
    (others : ∀ m, m ≠ n → answersOf m journal' = answersOf m journal)
    (stages : ∀ m job', m ≠ n → jobs'[m]? = some job' → ∃ old, jobs[m]? = some old ∧
      (job' = old ∨ (old.stage = .waiting ∧ ∃ outcome, job' = old.atStage (.told outcome))))
    (own : ∀ job', jobs'[n]? = some job' →
      Attended s prober job'.ip (answersOf n journal') job'.stage)
    (reported : ∀ answer ∈ answersOf n journal', prober.Reports answer) :
    Attentive s prober journal' jobs' where
  attended := by
    intro m job' known
    by_cases here : m = n
    · subst here
      exact own job' known
    · obtain ⟨old, before, stage⟩ := stages m job' here known
      have attended := attentive.attended m old before
      rw [others m here]
      rcases stage with rfl | ⟨waiting, outcome, rfl⟩
      · exact attended
      · rw [waiting] at attended
        exact attended
  unborn := by
    intro m outside
    rw [others m (by omega)]
    exact attentive.unborn m (by omega)
  reported := by
    intro m answer member
    by_cases here : m = n
    · subst here
      exact reported answer member
    · rw [others m here] at member
      exact attentive.reported m answer member

theorem Attentive.setStage (attentive : Attentive s prober journal jobs) {job : Job}
    (known : jobs[n]? = some job) (stage : JobStage)
    (others : ∀ m, m ≠ n → answersOf m journal' = answersOf m journal)
    (own : Attended s prober job.ip (answersOf n journal') stage)
    (reported : ∀ answer ∈ answersOf n journal', prober.Reports answer) :
    Attentive s prober journal' (jobs.modify n (.atStage stage)) := by
  refine attentive.update (List.getElem?_eq_some_iff.mp known).1 (List.length_modify ..) others ?_ ?_
    reported
  · intro m job' different known'
    rw [List.getElem?_modify_ne _ _ different.symm] at known'
    exact ⟨job', known', Or.inl rfl⟩
  · intro job' known'
    rw [List.getElem?_modify_eq, known] at known'
    cases known'
    exact own

/-- A job that goes on takes up its earlier answers. -/
structure Continues (attempts : Nat) (old : List (Option Sample)) (total : Nat) (before : Progress)
    (pending : List (Option Sample)) : Prop where
  taken : ∀ answers, ({} : Progress).takeAll (old ++ (pending ++ answers)) =
    before.takeAll (pending ++ answers)
  counted : old.length + pending.length + total = attempts
  incomplete : ¬Complete attempts old

theorem Continues.length_answered {attempts total : Nat} {old pending : List (Option Sample)}
    {before : Progress} (continues : Continues attempts old total before pending)
    (answers : List (Option Sample)) :
    (old ++ (pending ++ answers)).length + total = attempts + answers.length := by
  have parts := continues.counted
  rw [List.length_append, List.length_append]
  omega

variable {r r' : Ranker σ} {job : Job} {agenda : Agenda Task}

theorem continues_of_begins {flights : Flights} {total : Nat} {before : Progress}
    {pending : List (Option Sample)} (attentive : Attentive r.settings r.prober r.journal r.jobs)
    (known : r.jobs[n]? = some job)
    (begins : Begins { r with agenda } n job flights total before pending) :
    Continues r.settings.attemptCount (answersOf n r.journal) total before pending ∧
      ∀ answer ∈ pending, r.prober.Reports answer := by
  have attended := attentive.attended n job known
  have silent : ∀ answer ∈ ([] : List (Option Sample)), r.prober.Reports answer :=
    fun _ member => absurd member List.not_mem_nil
  cases begins with
  | first stage runs =>
      rw [stage] at attended
      have nothing : answersOf n r.journal = [] := attended
      rw [nothing]
      exact ⟨⟨fun _ => rfl, Nat.zero_add _, not_complete_nil _⟩, silent⟩
  | again stage =>
      rw [stage] at attended
      have nothing : answersOf n r.journal = [] := attended
      rw [nothing]
      exact ⟨⟨fun _ => rfl, Nat.zero_add _, not_complete_nil _⟩, silent⟩
  | @next left progress sample stage =>
      rw [stage] at attended
      obtain ⟨taken, counted, reported⟩ := attended
      refine ⟨⟨?_, ?_, ?_⟩, ?_⟩
      · intro answers
        rw [Progress.takeAll_append, taken]
        rfl
      · rw [List.length_singleton]
        omega
      · exact not_complete_of_taken taken (by omega)
      · intro answer member
        rw [List.mem_singleton.mp member]
        exact reported

/-- A job whose measurement is complete is done, and has the measurement's result. -/
theorem done_of_complete (attentive : Attentive s prober journal jobs) {job : Job}
    (known : jobs[n]? = some job) (complete : Complete s.attemptCount (answersOf n journal)) :
    job.stage = .done (resultOf s job.ip (answersOf n journal)) := by
  have attended := attentive.attended n job known
  have some' : answersOf n journal ≠ [] := fun nothing =>
    not_complete_nil s (nothing ▸ complete)
  cases stage : job.stage with
  | attempting left progress sample =>
      rw [stage] at attended
      obtain ⟨taken, counted, -⟩ := attended
      exact absurd complete (not_complete_of_taken taken (by omega))
  | done outcome =>
      rw [stage] at attended
      rcases attended with nothing | ⟨-, result⟩
      · exact absurd nothing some'
      · rw [result]
  | _ =>
      rw [stage] at attended
      exact absurd attended some'

end Attendance

section Turns

variable {r r' : Ranker σ} {agenda : Agenda Task} {n : Nat} {job : Job}

def Attends (r : Ranker σ) : Prop := Attentive r.settings r.prober r.journal r.jobs

/-- No measurement becomes complete, and those that are complete stay as they are. -/
def Lasts (r r' : Ranker σ) : Prop :=
  ∀ m, Complete r.settings.attemptCount (answersOf m r.journal) ∨
    Complete r.settings.attemptCount (answersOf m r'.journal) →
      answersOf m r'.journal = answersOf m r.journal

/-- Nothing is taken down, and nothing is due. -/
structure Passes (r r' : Ranker σ) : Prop where
  history : r'.history = r.history
  cache : r'.cache = r.cache
  lasts : Lasts r r'

/-- One measurement becomes complete and is taken down, once in the histories and once in the cache. -/
structure Concludes (r : Ranker σ) (n : Nat) (job : Job) (r' : Ranker σ) : Prop where
  known : ∃ job', r'.jobs[n]? = some job' ∧ job'.ip = job.ip
  incomplete : ¬Complete r.settings.attemptCount (answersOf n r.journal)
  complete : Complete r.settings.attemptCount (answersOf n r'.journal)
  others : ∀ m, m ≠ n → answersOf m r'.journal = answersOf m r.journal
  history : r'.history = r.history.note (verdictOf job.ip (answersOf n r'.journal) r.wall)
  cache : r'.cache = cacheAfter r.settings r.cache r.wall
    (resultOf r.settings job.ip (answersOf n r'.journal))

/-- A measurement that ends is complete, with the answers from before and from this turn. -/
theorem concludes_completed (boarded : Boarded r.flights r.agenda r.jobs) (attends : Attends r)
    (popped : r.agenda.pop? = some (.job n, agenda)) (known : r.jobs[n]? = some job)
    {flights : Flights} {total : Nat} {before : Progress} {pending answers : List (Option Sample)}
    (begins : Begins { r with agenda } n job flights total before pending)
    {news : List RankerEvent} (attempts : Attempts n job agenda.now news (pending ++ answers))
    (reported : ∀ answer ∈ answers, r.prober.Reports answer) {m : Measurement}
    (complete : Complete r.settings.attemptCount (answersOf n r.journal ++ (pending ++ answers)))
    (result : resultOf r.settings job.ip (answersOf n r.journal ++ (pending ++ answers)) = m)
    (taken : verdict m r.wall =
      verdictOf job.ip (answersOf n r.journal ++ (pending ++ answers)) r.wall) (memory : σ) :
    let r' := completed { r with agenda, flights, memory, journal := news ++ r.journal } n job m
    Attends r' ∧ Concludes r n job r' := by
  intro r'
  obtain ⟨underway, -⟩ := underway_of_begins boarded popped known begins
  obtain ⟨continues, early⟩ := continues_of_begins attends known begins
  have wall : wall { r with agenda, flights, memory, journal := news ++ r.journal } = r.wall :=
    congrArg r.clock.read (Agenda.pop?_eq_some popped).2.2
  have journal (k : Nat) : answersOf k r'.journal = answersOf k (news ++ r.journal) :=
    answersOf_completed _ n k job m
  have own : answersOf n r'.journal = answersOf n r.journal ++ (pending ++ answers) := by
    rw [journal, answersOf_append, attempts.answers]
  have others : ∀ k, k ≠ n → answersOf k r'.journal = answersOf k r.journal := by
    intro k different
    rw [journal]
    exact attempts.others different r.journal
  have inside := (List.getElem?_eq_some_iff.mp known).1
  have length : r'.jobs.length = r.jobs.length := by
    simp only [r', completed, List.length_modify, toldAll, length_modifyAll]
  have ended : r'.jobs[n]? = some (job.atStage (.done m)) := job_completed underway known m
  constructor
  -- The others' answers stay. A job that was told of the outcome has made no attempt of its own.
  · refine Attentive.update attends inside length others ?_ ?_ ?_
    · intro k job' different known'
      rcases job_of_completed underway known known' with
        ⟨same, -⟩ | ⟨old, before, -, rfl | ⟨waiting, -, rfl⟩⟩
      · exact absurd same different
      · exact ⟨_, before, Or.inl rfl⟩
      · exact ⟨old, before, Or.inr ⟨waiting, m, rfl⟩⟩
    · intro job' known'
      rw [ended] at known'
      cases known'
      rw [own]
      exact Or.inr ⟨complete, result.symm⟩
    · intro answer member
      rw [own] at member
      rcases List.mem_append.mp member with old | new
      · exact attends.reported n answer old
      · exact (List.mem_append.mp new).elim (early answer) (reported answer)
  · refine ⟨⟨_, ended, rfl⟩, continues.incomplete, own ▸ complete, others, ?_, ?_⟩
    · have noted : r'.history = r.history.note (verdict m _) := rfl
      rw [noted, wall, taken, own]
    · have kept : r'.cache = cacheAfter r.settings r.cache _ m := rfl
      rw [kept, wall, own, result]

theorem attends_sleeping (attends : Attends r) (known : r.jobs[n]? = some job) {flights : Flights}
    {total left : Nat} {before after : Progress} {pending answers : List (Option Sample)}
    (begins : Begins { r with agenda } n job flights total before pending) {news : List RankerEvent}
    {sample : Option Sample} (attempts : Attempts n job agenda.now news (pending ++ answers))
    (reported : ∀ answer ∈ answers ++ [sample], r.prober.Reports answer)
    (took : before.takeAll (pending ++ answers) = some after)
    (fewer : total = answers.length + left + 1) :
    Attentive r.settings r.prober (news ++ r.journal)
        (r.jobs.modify n (.atStage (.attempting left after sample))) ∧
      ¬Complete r.settings.attemptCount (answersOf n r.journal) ∧
      ¬Complete r.settings.attemptCount (answersOf n (news ++ r.journal)) := by
  obtain ⟨continues, early⟩ := continues_of_begins attends known begins
  have own : answersOf n (news ++ r.journal) = answersOf n r.journal ++ (pending ++ answers) := by
    rw [answersOf_append, attempts.answers]
  have taken := (continues.taken answers).trans took
  have counted : (answersOf n r.journal ++ (pending ++ answers)).length + left + 1 =
      r.settings.attemptCount := by
    have answered := continues.length_answered answers
    omega
  rw [own]
  refine ⟨?_, continues.incomplete, ?_⟩
  · refine Attentive.setStage attends known _ (fun m different => attempts.others different _) ?_ ?_
    · rw [own]
      exact ⟨taken, counted, reported sample (List.mem_append_right _ (List.mem_singleton.mpr rfl))⟩
    · intro answer member
      rw [own] at member
      rcases List.mem_append.mp member with old | new
      · exact attends.reported n answer old
      · rcases List.mem_append.mp new with first | later
        · exact early answer first
        · exact reported answer (List.mem_append_left _ later)
  · exact not_complete_of_taken taken (by omega)

theorem attends_jobTurn (boarded : Boarded r.flights r.agenda r.jobs) (attends : Attends r)
    (popped : r.agenda.pop? = some (.job n, agenda)) (known : r.jobs[n]? = some job)
    (turn : JobTurn { r with agenda } n job r') :
    Attends r' ∧ (Passes r r' ∨ Concludes r n job r') := by
  have attended := attends.attended n job known
  cases turn with
  | waits stage behind =>
      rw [stage] at attended
      exact ⟨Attentive.setStage attends known .waiting (fun _ _ => rfl) attended (attends.reported n),
        Or.inl ⟨rfl, rfl, fun _ _ => rfl⟩⟩
  | sleeps begins news memory sample delay attempts reported took fewer positive =>
      obtain ⟨attends', before, after⟩ :=
        attends_sleeping attends known begins attempts reported took fewer
      -- It was incomplete before and still is, so no complete measurement has changed.
      refine ⟨attends', Or.inl ⟨rfl, rfl, fun m complete => ?_⟩⟩
      by_cases here : m = n
      · subst here
        exact absurd complete (not_or.mpr ⟨before, after⟩)
      · exact attempts.others here _
  | @concludes flights total before after pending answers begins news memory attempts reported took
      all =>
      obtain ⟨continues, -⟩ := continues_of_begins attends known begins
      have taken := (continues.taken answers).trans took
      have counted : (answersOf n r.journal ++ (pending ++ answers)).length =
          r.settings.attemptCount := by
        have answered := continues.length_answered answers
        omega
      obtain ⟨result, verdict'⟩ := result_of_taken taken counted job.ip r.wall
      obtain ⟨attends', concludes⟩ := concludes_completed boarded attends popped known begins attempts
        reported (Or.inr counted) result (result ▸ verdict') memory
      exact ⟨attends', Or.inr concludes⟩
  | @givesUp flights total before pending answers begins news memory attempts reported failed =>
      obtain ⟨continues, -⟩ := continues_of_begins attends known begins
      have lost := Progress.takeAll_eq_none.mp ((continues.taken answers).trans failed)
      obtain ⟨result, verdict'⟩ := result_of_lost (s := r.settings) lost job.ip r.wall
      obtain ⟨attends', concludes⟩ := concludes_completed boarded attends popped known begins attempts
        reported (Or.inl lost) result (result ▸ verdict') memory
      exact ⟨attends', Or.inr concludes⟩
  | ends stage =>
      rw [stage] at attended
      have nothing : answersOf n r.journal = [] := attended
      rw [finish_eq]
      have journal (m : Nat) : answersOf m ([.finished n agenda.now] ++ r.journal) =
          answersOf m r.journal := answersOf_news (by simp) _
      refine ⟨Attentive.setStage attends known (.done _) (fun m _ => journal m) ?_ ?_,
        Or.inl ⟨rfl, rfl, fun m _ => journal m⟩⟩
      · exact Or.inl ((journal n).trans nothing)
      · exact fun answer member => attends.reported n answer (journal n ▸ member)
  | idle stage => exact ⟨attends, Or.inl ⟨rfl, rfl, fun _ _ => rfl⟩⟩

theorem Passes.refl (r : Ranker σ) : Passes r r := ⟨rfl, rfl, fun _ _ => rfl⟩

theorem Attentive.enlist {s : Settings} {prober : Prober σ} {journal journal' : List RankerEvent}
    {jobs recruits : List Job} (attentive : Attentive s prober journal jobs)
    (fresh : ∀ job ∈ recruits, job.stage = .queued)
    (same : ∀ m, answersOf m journal' = answersOf m journal) :
    Attentive s prober journal' (jobs ++ recruits) where
  attended := by
    intro m job known
    rw [same]
    by_cases old : m < jobs.length
    · rw [List.getElem?_append_left old] at known
      exact attentive.attended m job known
    · rw [List.getElem?_append_right (by omega)] at known
      rw [fresh job (List.mem_of_getElem? known)]
      exact attentive.unborn m (by omega)
  unborn := by
    intro m outside
    rw [List.length_append] at outside
    rw [same]
    exact attentive.unborn m (by omega)
  reported := by
    intro m
    rw [same]
    exact attentive.reported m

theorem attends_rankingTurn {c : Nat} {call : RankingCall} (attends : Attends r)
    (turn : RankingTurn r c call r') : Attends r' ∧ Passes r r' := by
  rcases recruits_of_turn turn with rfl | ⟨recruits, r'', call'', news, enlisted, rfl, returned⟩
  · exact ⟨attends, .refl _⟩
  · have enlists := enlisted.enlists
    obtain ⟨spawned, journal, spawns⟩ := enlists.journal
    have same (m : Nat) : answersOf m (news ++ r''.journal) = answersOf m r.journal := by
      rw [answersOf_news, journal, answersOf_news]
      · intro event member sample time answered
        obtain ⟨k, owner, spawn⟩ := spawns event member
        rw [spawn] at answered
        cases answered
      · intro event member sample time answered
        obtain ⟨later, back⟩ := returned event member
        rw [back] at answered
        cases answered
    have attends' : Attentive r.settings r.prober (news ++ r''.journal) r''.jobs := by
      rw [enlists.jobs]
      exact Attentive.enlist attends enlists.fresh same
    have prober : r''.prober = r.prober := by rw [enlists.same]
    refine ⟨?_, enlists.history, enlists.cache, fun m _ => same m⟩
    rw [← enlists.settings, ← prober] at attends'
    exact attends'

/-- Every turn keeps count of the answers, and takes down the measurement that it completes. -/
theorem attends_of_turn (boarded : Boarded r.flights r.agenda r.jobs) (attends : Attends r)
    (turn : Turn r r') : Attends r' ∧ (Passes r r' ∨ ∃ n job, Concludes r n job r') := by
  cases turn with
  | rests empty => exact ⟨attends, Or.inl (.refl r)⟩
  | @ofJob n agenda job _ popped known turn =>
      obtain ⟨attends', passes | concludes⟩ := attends_jobTurn boarded attends popped known turn
      · exact ⟨attends', Or.inl passes⟩
      · exact ⟨attends', Or.inr ⟨n, job, concludes⟩⟩
  | @ofRanking _ agenda _ _ popped known turn =>
      obtain ⟨attends', history, cache, lasts⟩ :=
        attends_rankingTurn (r := { r with agenda }) attends turn
      exact ⟨attends', Or.inl ⟨history, cache, lasts⟩⟩
  | ofCancel popped known => exact ⟨attends, Or.inl ⟨rfl, rfl, fun _ _ => rfl⟩⟩
  | lapses popped noJob noRanking => exact ⟨attends, Or.inl ⟨rfl, rfl, fun _ _ => rfl⟩⟩

theorem attends_perform (r : Ranker σ) (act : Act σ) (boarded : Boarded r.flights r.agenda r.jobs)
    (attends : Attends r) : Attends (r.perform act) := by
  rcases outcome_perform r act with ⟨-, turn⟩ | aside
  · exact (attends_of_turn boarded attends turn).1
  · obtain ⟨jobs, journal⟩ := aside.still
    obtain ⟨settings, prober⟩ := fixed_perform r act
    rw [Attends, jobs, journal, settings, prober]
    exact attends

theorem attends_of_nothing (jobs : r.jobs = []) (journal : r.journal = []) : Attends r where
  attended := by simp [jobs]
  unborn := fun _ _ => by rw [journal]; rfl
  reported := fun _ => by rw [journal]; simp [answersOf]

end Turns

end Ranker

end LatencyRank
