import Mathlib
import LatencyRank.Ranker.Run
import LatencyRank.Proofs.Measurement.Attempts
import LatencyRank.Proofs.Schedule.Agenda
import LatencyRank.Proofs.Schedule.Places

/-!
What a turn of a job can come to, in full. A job that is not the first of its pair waits; one that
is makes attempts until one takes time or the measurement is complete; one that was told ends.
-/

namespace LatencyRank

def Job.atStage (stage : JobStage) (job : Job) : Job := { job with stage }

/-- The prober may answer so, for some pair and whatever it remembers. -/
def Prober.Reports {σ : Type} (prober : Prober σ) (answer : Option Sample) : Prop :=
  ∃ ip domain memory, (prober.ask ip domain memory).1.sample = answer

namespace Ranker

variable {σ : Type}

section Endings

def delivered (outcome : Measurement) (call : RankingCall) : RankingCall :=
  { call with
    permits := call.permits + 1
    running := call.running - 1
    fresh := call.fresh ++ [outcome] }

def rankingsAfter (rankings : List RankingCall) (outcome : Measurement) :
    Owner → List RankingCall
  | .refresh => rankings
  | .ranking c => rankings.modify c (delivered outcome)

/-- Who is to go on after a job has ended. -/
def heeding (rankings : List RankingCall) : Owner → List Task
  | .refresh => []
  | .ranking c => if rankings[c]?.any RankingCall.isWaiting then [.ranking c] else []

def refreshingAfter (refreshing : List String) (job : Job) : List String :=
  match job.owner with
  | .refresh => refreshing.filter (· ≠ job.ip)
  | .ranking _ => refreshing

theorem finish_eq (r : Ranker σ) (n : Nat) (job : Job) (outcome : Measurement) :
    r.finish n job outcome =
      { r with
        jobs := r.jobs.modify n (.atStage (.done outcome))
        refreshing := refreshingAfter r.refreshing job
        rankings := rankingsAfter r.rankings outcome job.owner
        agenda := r.agenda.wakeAll (heeding r.rankings job.owner)
        journal := .finished n r.agenda.now :: r.journal } := by
  unfold finish
  cases owner : job.owner with
  | refresh =>
      simp only [refreshingAfter, rankingsAfter, heeding, owner]
      rfl
  | ranking c =>
      simp only [deliver, refreshingAfter, rankingsAfter, heeding, owner, setJob, note]
      cases known : r.rankings[c]? with
      | none =>
          rw [List.modify_eq_self (List.getElem?_eq_none_iff.mp known)]
          rfl
      | some call =>
          rw [modify_of_getElem? known]
          by_cases waits : call.isWaiting = true
          · simp only [waits, Option.any_some, ↓reduceIte]
            rfl
          · simp only [waits, Option.any_some, Bool.false_eq_true, ↓reduceIte]
            rfl

def verdict (m : Measurement) (wall : Int) : HistoryBook.Entry :=
  if m.abandoned then .fastFailed m.ip wall
  else if m.loss.isZero then .succeeded m.ip
  else .failed m.ip wall

def cacheAfter (settings : Settings) (cache : ShardedCache) (wall : Int) (m : Measurement) :
    ShardedCache :=
  if settings.usesCache then cache.insert m.ip (entryFor settings wall m) else cache

def toldAll (outcome : Measurement) (waiting : List Nat) (jobs : List Job) : List Job :=
  modifyAll (.atStage (.told outcome)) waiting jobs

theorem getElem?_toldAll (outcome : Measurement) (waiting : List Nat) (jobs : List Job) (m : Nat) :
    (toldAll outcome waiting jobs)[m]? =
      if m ∈ waiting then jobs[m]?.map (.atStage (.told outcome)) else jobs[m]? :=
  getElem?_modifyAll (Job.atStage (.told outcome)) (fun _ => rfl) waiting jobs m

theorem job_of_toldAll {outcome : Measurement} {waiting : List Nat} {jobs : List Job} {m : Nat}
    {job : Job} (known : (toldAll outcome waiting jobs)[m]? = some job) :
    (m ∈ waiting ∧ ∃ old, jobs[m]? = some old ∧ job = old.atStage (.told outcome)) ∨
      (m ∉ waiting ∧ jobs[m]? = some job) := by
  rw [getElem?_toldAll] at known
  split at known
  · rename_i waited
    obtain ⟨old, before, rfl⟩ := Option.map_eq_some_iff.mp known
    exact Or.inl ⟨waited, old, before, rfl⟩
  · rename_i notWaited
    exact Or.inr ⟨notWaited, known⟩

theorem mem_toldAll {outcome : Measurement} {waiting : List Nat} {jobs : List Job} {job : Job}
    (member : job ∈ toldAll outcome waiting jobs) :
    ∃ old ∈ jobs, job = old ∨ job = old.atStage (.told outcome) := by
  obtain ⟨m, known⟩ := List.mem_iff_getElem?.mp member
  rcases job_of_toldAll known with ⟨-, old, before, told⟩ | ⟨-, before⟩
  · exact ⟨old, List.mem_of_getElem? before, Or.inr told⟩
  · exact ⟨job, List.mem_of_getElem? before, Or.inl rfl⟩

theorem tellAll_eq (r : Ranker σ) (outcome : Measurement) (waiting : List Nat) :
    waiting.foldl (tell outcome) r =
      { r with
        jobs := toldAll outcome waiting r.jobs
        agenda := r.agenda.wakeAll (waiting.map .job) } := by
  induction waiting generalizing r with
  | nil => rfl
  | cons m rest ih =>
      rw [List.foldl_cons, ih]
      rfl

/-- The ranker after a job has made a measurement, field by field: it is accounted for, its flight
is over and the job has ended. -/
def completed (r : Ranker σ) (n : Nat) (job : Job) (m : Measurement) : Ranker σ :=
  { r with
    history := r.history.note (verdict m r.wall)
    cache := cacheAfter r.settings r.cache r.wall m
    flights := (r.flights.land job.key).1
    jobs := (toldAll m (r.flights.land job.key).2 r.jobs).modify n (.atStage (.done m))
    refreshing := refreshingAfter r.refreshing job
    rankings := rankingsAfter r.rankings m job.owner
    agenda := (r.agenda.wakeAll ((r.flights.land job.key).2.map .job)).wakeAll
      (heeding r.rankings job.owner)
    journal := .finished n r.agenda.now :: .measured n m r.wall :: r.journal }

theorem complete_eq (r : Ranker σ) (n : Nat) (job : Job) {m : Measurement}
    (whole : m.abandoned = false) : r.complete n job m = r.completed n job m := by
  unfold complete
  simp only [tellAll_eq, finish_eq]
  by_cases caches : r.settings.usesCache = true <;> by_cases lossless : m.loss.isZero = true <;>
    simp [store, note, completed, verdict, cacheAfter, whole, caches, lossless, succeed, fail, wall,
      HistoryBook.note]

theorem complete_givenUp (r : Ranker σ) (n : Nat) (job : Job) :
    (r.fastFail job.ip).complete n job (.givenUp job.ip) =
      r.completed n job (.givenUp job.ip) := by
  unfold complete
  simp only [tellAll_eq, finish_eq]
  by_cases caches : r.settings.usesCache = true <;>
    simp [store, note, completed, verdict, cacheAfter, caches, fastFail, wall, HistoryBook.note,
      Measurement.givenUp, Measurement.dead]

end Endings

section Attempts

def answersOf (n : Nat) (journal : List RankerEvent) : List (Option Sample) :=
  (journal.filterMap fun
    | .answered m sample _ => if m = n then some sample else none
    | _ => none).reverse

theorem answersOf_append (n : Nat) (news journal : List RankerEvent) :
    answersOf n (news ++ journal) = answersOf n journal ++ answersOf n news := by
  simp [answersOf, List.filterMap_append]

/-- What a job's attempts at one instant leave in the journal, for the answers it had. -/
structure Attempts (n : Nat) (job : Job) (now : Nat) (news : List RankerEvent)
    (answers : List (Option Sample)) : Prop where
  answers : answersOf n news = answers
  only : ∀ event ∈ news, event = .asked n job.ip job.domain now ∨
    ∃ sample, event = .answered n sample now

theorem Attempts.nil (n : Nat) (job : Job) (now : Nat) : Attempts n job now [] [] :=
  ⟨rfl, fun _ member => by cases member⟩

theorem Attempts.ask {n : Nat} {job : Job} {now : Nat} {news : List RankerEvent}
    {answers : List (Option Sample)} (attempts : Attempts n job now news answers) :
    Attempts n job now (.asked n job.ip job.domain now :: news) answers where
  answers := attempts.answers
  only := by
    intro event member
    rcases List.mem_cons.mp member with rfl | old
    · exact Or.inl rfl
    · exact attempts.only event old

theorem Attempts.answer {n : Nat} {job : Job} {now : Nat} {news : List RankerEvent}
    {answers : List (Option Sample)} (attempts : Attempts n job now news answers)
    (sample : Option Sample) :
    Attempts n job now (.answered n sample now :: news) (answers ++ [sample]) where
  answers := by
    have before := attempts.answers
    unfold answersOf at before ⊢
    simp [before]
  only := by
    intro event member
    rcases List.mem_cons.mp member with rfl | old
    · exact Or.inr ⟨sample, rfl⟩
    · exact attempts.only event old

/-- How a job is placed that goes on with its attempts: what flights there are once it is aboard,
how many attempts are left, what came of those before, and the answer that it has just had. -/
inductive Begins (r : Ranker σ) (n : Nat) (job : Job) :
    Flights → Nat → Progress → List (Option Sample) → Prop
  | first (stage : job.stage = .queued) (runs : (r.flights.join job.key n).2.runs = true) :
      Begins r n job (r.flights.join job.key n).1 r.settings.attemptCount {} []
  | again (stage : job.stage = .waiting) : Begins r n job r.flights r.settings.attemptCount {} []
  | next {left : Nat} {progress : Progress} {sample : Option Sample}
      (stage : job.stage = .attempting left progress sample) :
      Begins r n job r.flights left progress [sample]

/-- All outcomes of a job's turn. -/
inductive JobTurn (r : Ranker σ) (n : Nat) (job : Job) : Ranker σ → Prop
  | waits (stage : job.stage = .queued) (behind : (r.flights.join job.key n).2.runs ≠ true) :
      JobTurn r n job
        { r with
          flights := (r.flights.join job.key n).1
          jobs := r.jobs.modify n (.atStage .waiting) }
  | sleeps {flights : Flights} {total left : Nat} {before after : Progress}
      {pending answers : List (Option Sample)} (begins : Begins r n job flights total before pending)
      (news : List RankerEvent) (memory : σ) (sample : Option Sample) (delay : Nat)
      (attempts : Attempts n job r.agenda.now news (pending ++ answers))
      (reported : ∀ answer ∈ answers ++ [sample], r.prober.Reports answer)
      (took : before.takeAll (pending ++ answers) = some after)
      (fewer : total = answers.length + left + 1) (positive : 0 < delay) :
      JobTurn r n job
        { r with
          flights
          memory
          jobs := r.jobs.modify n (.atStage (.attempting left after sample))
          agenda := r.agenda.wakeAfter delay (.job n)
          journal := news ++ r.journal }
  | concludes {flights : Flights} {total : Nat} {before after : Progress}
      {pending answers : List (Option Sample)} (begins : Begins r n job flights total before pending)
      (news : List RankerEvent) (memory : σ)
      (attempts : Attempts n job r.agenda.now news (pending ++ answers))
      (reported : ∀ answer ∈ answers, r.prober.Reports answer)
      (took : before.takeAll (pending ++ answers) = some after) (all : total = answers.length) :
      JobTurn r n job
        (completed { r with flights, memory, journal := news ++ r.journal } n job
          (after.conclude job.ip r.settings.strategy))
  | givesUp {flights : Flights} {total : Nat} {before : Progress}
      {pending answers : List (Option Sample)} (begins : Begins r n job flights total before pending)
      (news : List RankerEvent) (memory : σ)
      (attempts : Attempts n job r.agenda.now news (pending ++ answers))
      (reported : ∀ answer ∈ answers, r.prober.Reports answer)
      (failed : before.takeAll (pending ++ answers) = none) :
      JobTurn r n job
        (completed { r with flights, memory, journal := news ++ r.journal } n job (.givenUp job.ip))
  | ends {outcome : Measurement} (stage : job.stage = .told outcome) :
      JobTurn r n job (r.finish n job outcome)
  | idle {outcome : Measurement} (stage : job.stage = .done outcome) : JobTurn r n job r

theorem not_abandoned_conclude (progress : Progress) (ip : String) (strategy : Strategy) :
    (progress.conclude ip strategy).abandoned = false := by
  unfold Progress.conclude
  split <;> rfl

variable {r : Ranker σ} {n : Nat} {job : Job} {flights : Flights} {total : Nat} {before : Progress}
  {pending : List (Option Sample)}

/-- The attempts from here on make a turn with those that were made already. -/
theorem attempt_turn (begins : Begins r n job flights total before pending) (left : Nat)
    {answers : List (Option Sample)} {news : List RankerEvent} {memory : σ} {progress : Progress}
    (attempts : Attempts n job r.agenda.now news (pending ++ answers))
    (reported : ∀ answer ∈ answers, r.prober.Reports answer)
    (took : before.takeAll (pending ++ answers) = some progress)
    (fewer : total = answers.length + left) :
    JobTurn r n job
      (attempt n job left { r with flights, memory, journal := news ++ r.journal } progress) := by
  -- on the attempts that are left; what is heard at this instant is gathered on the way
  induction left generalizing answers news memory progress with
  | zero =>
      unfold attempt
      rw [complete_eq _ _ _ (not_abandoned_conclude _ _ _)]
      exact .concludes begins news memory attempts reported took fewer
  | succ left ih =>
      unfold attempt
      generalize asked : r.prober.ask job.ip job.domain memory = reply
      obtain ⟨answer, remembered⟩ := reply
      have reported' : ∀ other ∈ answers ++ [answer.sample], r.prober.Reports other := by
        intro other member
        rcases List.mem_append.mp member with old | new
        · exact reported other old
        · rw [List.mem_singleton.mp new]
          exact ⟨job.ip, job.domain, memory, by rw [asked]⟩
      simp only [note]
      by_cases instant : answer.delay = 0
      · have later := (attempts.ask).answer answer.sample
        rw [List.append_assoc] at later
        -- the answer is here at once, so it is taken before the turn ends
        have grown : before.takeAll (pending ++ (answers ++ [answer.sample])) =
            progress.take answer.sample := by
          rw [← List.append_assoc, Progress.takeAll_append, took]
          exact Progress.takeAll_single _ _
        simp only [instant, ↓reduceIte, absorb, note]
        cases taken : progress.take answer.sample with
        | none =>
            rw [taken] at grown
            have closed := complete_givenUp
              ({ r with flights, memory := remembered, journal :=
                  .answered n answer.sample r.agenda.now ::
                    .asked n job.ip job.domain r.agenda.now :: news ++ r.journal } : Ranker σ) n job
            simp only [List.cons_append] at closed
            rw [closed]
            exact .givesUp begins _ remembered later reported' grown
        | some progress' =>
            rw [taken] at grown
            exact ih later reported' grown (by rw [List.length_append, List.length_singleton]; omega)
      · simp only [instant, ↓reduceIte]
        exact .sleeps begins _ remembered answer.sample answer.delay attempts.ask reported' took
          (by omega) (Nat.pos_of_ne_zero instant)

theorem resumeJob_turn (known : r.jobs[n]? = some job) : JobTurn r n job (r.resumeJob n) := by
  have silent : ∀ answer ∈ ([] : List (Option Sample)), r.prober.Reports answer :=
    fun _ member => absurd member List.not_mem_nil
  unfold resumeJob
  rw [known]
  cases stage : job.stage with
  | queued =>
      by_cases runs : (r.flights.join job.key n).2.runs = true
      · simp only [stage, runs, ↓reduceIte]
        exact attempt_turn (.first stage runs) _ (.nil n job _) silent rfl (Nat.zero_add _).symm
      · simp only [stage, runs, Bool.false_eq_true, ↓reduceIte]
        exact .waits stage runs
  | waiting =>
      simp only [stage]
      exact attempt_turn (.again stage) _ (.nil n job _) silent rfl (Nat.zero_add _).symm
  | attempting left progress sample =>
      -- The answer it slept on comes first among those of the turn.
      have begins : Begins r n job r.flights left progress [sample] := .next stage
      have attempts : Attempts n job r.agenda.now [.answered n sample r.agenda.now] ([sample] ++ []) :=
        (Attempts.nil n job r.agenda.now).answer sample
      have first : progress.takeAll ([sample] ++ []) = progress.take sample := by
        rw [List.append_nil, Progress.takeAll_single]
      simp only [stage, absorb, note]
      cases taken : progress.take sample with
      | none =>
          have closed := complete_givenUp
            ({ r with journal := .answered n sample r.agenda.now :: r.journal } : Ranker σ) n job
          rw [closed]
          exact .givesUp begins _ r.memory attempts silent (first.trans taken)
      | some progress' =>
          exact attempt_turn begins left attempts silent (first.trans taken) (Nat.zero_add _).symm
  | told outcome =>
      simp only [stage]
      exact .ends stage
  | done outcome =>
      simp only [stage]
      exact .idle stage

end Attempts

end Ranker

end LatencyRank
