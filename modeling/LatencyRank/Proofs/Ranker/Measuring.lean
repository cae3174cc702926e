import Mathlib
import LatencyRank.Probe.Script
import LatencyRank.Proofs.Measurement.Specification
import LatencyRank.Proofs.Ranker.Accounts
import LatencyRank.Proofs.Ranker.Leaders
import LatencyRank.Proofs.Ranker.Repertoire

/-!
How often a job asks the prober. Its questions and their answers come by turns, all for its own pair; a
first answer that is a failure is its only one. So a measurement that is complete has asked once, or as
often as it should, and it amounts to what the answers say; and whoever has asked once comes to the end.
-/

namespace LatencyRank

def RankerEvent.isSaidBy (n : Nat) : RankerEvent → Bool
  | .asked m .. | .answered m .. => m = n
  | .spawned .. | .measured .. | .finished .. | .returned .. => false

def RankerEvent.isAskedBy (n : Nat) : RankerEvent → Bool
  | .asked m .. => m = n
  | .answered .. | .spawned .. | .measured .. | .finished .. | .returned .. => false

namespace Ranker

variable {σ : Type}

section Alternation

/-- Questions about a pair and their answers by turns, the latest first, with an answer outstanding or
none. -/
inductive Alternates (n : Nat) (ip domain : String) : List RankerEvent → Bool → Prop
  | silence : Alternates n ip domain [] false
  | asks {said : List RankerEvent} (time : Nat) (before : Alternates n ip domain said false) :
      Alternates n ip domain (.asked n ip domain time :: said) true
  | hears {said : List RankerEvent} (sample : Option Sample) (time : Nat)
      (before : Alternates n ip domain said true) :
      Alternates n ip domain (.answered n sample time :: said) false

def timesAsked (n : Nat) (journal : List RankerEvent) : Nat := journal.countP (RankerEvent.isAskedBy n)

/-- All that a job has asked and heard, the latest first. -/
def saidBy (n : Nat) (journal : List RankerEvent) : List RankerEvent :=
  journal.filter (RankerEvent.isSaidBy n)

variable {n m : Nat} {ip domain : String} {said news journal : List RankerEvent} {waits : Bool}

theorem timesAsked_saidBy (n : Nat) (journal : List RankerEvent) :
    timesAsked n (saidBy n journal) = timesAsked n journal := by
  rw [timesAsked, timesAsked, saidBy, List.countP_filter]
  congr 1
  funext event
  cases event <;> simp [RankerEvent.isAskedBy, RankerEvent.isSaidBy]

theorem answersOf_saidBy (n : Nat) (journal : List RankerEvent) :
    answersOf n (saidBy n journal) = answersOf n journal := by
  unfold answersOf saidBy
  rw [List.filterMap_filter]
  congr 2
  funext event
  cases event <;> simp [RankerEvent.isSaidBy]

/-- Every answer was asked for, and at most one question has none yet. -/
theorem Alternates.counts (alternates : Alternates n ip domain said waits) :
    timesAsked n said = (answersOf n said).length + waits.toNat := by
  induction alternates with
  | silence => rfl
  | @asks said time before ih =>
    have more : timesAsked n (.asked n ip domain time :: said) = timesAsked n said + 1 :=
      List.countP_cons_of_pos (by simp [RankerEvent.isAskedBy])
    rw [more, ih]
    rfl
  | @hears said sample time before ih =>
    have same : timesAsked n (.answered n sample time :: said) = timesAsked n said :=
      List.countP_cons_of_neg (by simp [RankerEvent.isAskedBy])
    rw [same, ih]
    simp [answersOf]

variable {prober : Prober σ} {now : Nat} {memory memory' : σ} {pending pending' : Option (Option Sample)}

theorem saidBy_append (n : Nat) (news journal : List RankerEvent) :
    saidBy n (news ++ journal) = saidBy n news ++ saidBy n journal :=
  List.filter_append ..

theorem saidBy_of_mute (mute : ∀ event ∈ news, event.isMute = true) (n : Nat) : saidBy n news = [] := by
  rw [saidBy, List.filter_eq_nil_iff]
  intro event member
  have silent := mute event member
  cases event with
  | asked m ip domain time => cases silent
  | answered m sample time => cases silent
  | _ => exact Bool.false_ne_true

theorem saidBy_talk_of_ne (talk : Talk prober n ip domain now memory pending news memory' pending')
    (different : m ≠ n) : saidBy m news = [] := by
  induction talk with
  | silence => rfl
  | asks talk ih => simpa [saidBy, RankerEvent.isSaidBy, different.symm] using ih
  | hears talk ih => simpa [saidBy, RankerEvent.isSaidBy, different.symm] using ih

theorem Alternates.talk (alternates : Alternates n ip domain said pending.isSome)
    (talk : Talk prober n ip domain now memory pending news memory' pending') :
    Alternates n ip domain (saidBy n news ++ said) pending'.isSome := by
  induction talk with
  | silence => exact alternates
  | @asks news memory' talk ih =>
    have own : saidBy n (.asked n ip domain now :: news) = .asked n ip domain now :: saidBy n news :=
      List.filter_cons_of_pos (by simp [RankerEvent.isSaidBy])
    rw [own]
    exact .asks now ih
  | @hears news memory' sample talk ih =>
    have own : saidBy n (.answered n sample now :: news) = .answered n sample now :: saidBy n news :=
      List.filter_cons_of_pos (by simp [RankerEvent.isSaidBy])
    rw [own]
    exact .hears sample now ih

end Alternation

section Dialogues

/-- Every job's questions and answers come by turns, and who is not there yet has said nothing. -/
structure Conversing (r : Ranker σ) : Prop where
  alternates : ∀ n job, r.jobs[n]? = some job →
    Alternates n job.ip job.domain (saidBy n r.journal) (r.outstanding n).isSome
  unborn : ∀ n, r.jobs.length ≤ n → saidBy n r.journal = []

variable {r : Ranker σ}

theorem Conversing.perform (conversing : Conversing r) (boarded : Boarded r.flights r.agenda r.jobs)
    (act : Act σ) : Conversing (r.perform act) := by
  have longer := length_jobs_perform r act
  -- what a job said, as far as it was there
  have before (n : Nat) (job : Job) (known' : (r.perform act).jobs[n]? = some job) :
      Alternates n job.ip job.domain (saidBy n r.journal) (r.outstanding n).isSome := by
    cases known : r.jobs[n]? with
    | some old =>
      obtain ⟨stage, rfl⟩ := job_of_perform known known'
      exact conversing.alternates n old known
    | none =>
      rw [conversing.unborn n (List.getElem?_eq_none_iff.mp known), outstanding, known]
      exact .silence
  cases converses_perform r act boarded with
  | silent news journal mute same memory =>
    have still (n : Nat) : saidBy n (r.perform act).journal = saidBy n r.journal := by
      rw [journal, saidBy_append, saidBy_of_mute mute, List.nil_append]
    constructor
    · intro n job known'
      rw [still, same]
      exact before n job known'
    · intro n outside
      rw [still]
      exact conversing.unborn n (longer.trans outside)
  | speaks k speaker tail news pending turn known open' journal mute talk changed single =>
    have later (n : Nat) : saidBy n (r.perform act).journal = saidBy n news ++ saidBy n r.journal := by
      rw [journal, saidBy_append, saidBy_of_mute mute, List.nil_append, saidBy_append]
    constructor
    · intro n job known'
      have alternates := before n job known'
      rw [later, changed]
      by_cases here : n = k
      · subst here
        obtain ⟨stage, rfl⟩ := job_of_perform known known'
        rw [Function.update_self]
        exact alternates.talk talk
      · rw [Function.update_of_ne here, saidBy_talk_of_ne talk here]
        exact alternates
    · intro n outside
      have different : n ≠ k := by
        have inside := (List.getElem?_eq_some_iff.mp known).1
        omega
      rw [later, saidBy_talk_of_ne talk different]
      exact conversing.unborn n (longer.trans outside)

end Dialogues

section Endings

/-- Nothing is heard behind a first answer that is a failure. -/
def Curt (answers : List (Option Sample)) : Prop := answers.head? = some none → answers = [none]

variable {r : Ranker σ} {n : Nat} {job : Job} {progress : Progress} {answers : List (Option Sample)}

theorem curt_of_taken (taken : ({} : Progress).takeAll answers = some progress) : Curt answers :=
  fun lost => absurd lost (Progress.began_of_taken taken)

/-- With a failure a measurement ends only if that is its first answer. -/
theorem curt_absorb {sample : Option Sample} {next : Ranker σ → Progress → Ranker σ}
    (taken : ({} : Progress).takeAll (answersOf n r.journal) = some progress)
    (goesOn : ∀ r' progress', ({} : Progress).takeAll (answersOf n r'.journal) = some progress' →
      Curt (answersOf n (next r' progress').journal)) :
    Curt (answersOf n (r.absorb n job progress sample next).journal) := by
  let later : Ranker σ := r.note (.answered n sample r.agenda.now)
  have heard : answersOf n later.journal = answersOf n r.journal ++ [sample] := by
    simp [later, note, answersOf]
  have both : ({} : Progress).takeAll (answersOf n later.journal) = progress.take sample := by
    rw [heard, Progress.takeAll_append, taken]
    exact Progress.takeAll_single progress sample
  unfold absorb
  dsimp only
  cases step : progress.take sample with
  | some progress' => exact goesOn later progress' (both.trans step)
  | none =>
    have closed : (later.fastFail job.ip).complete n job (.givenUp job.ip) =
        later.completed n job (.givenUp job.ip) := complete_givenUp later n job
    dsimp only
    rw [closed, answersOf_completed, heard]
    cases sample with
    | some sample => cases step
    | none =>
      have first : progress.made = 0 := by
        by_contra begun
        rw [Progress.take, if_neg begun] at step
        cases step
      have nothing : progress.made = (answersOf n r.journal).length := by
        rw [(Progress.counted taken).1]
        exact Nat.zero_add _
      have none' : answersOf n r.journal = [] := List.length_eq_zero_iff.mp (nothing.symm.trans first)
      intro _
      rw [none', List.nil_append]

theorem curt_attempt (left : Nat)
    (taken : ({} : Progress).takeAll (answersOf n r.journal) = some progress) :
    Curt (answersOf n (attempt n job left r progress).journal) := by
  induction left generalizing r progress with
  | zero =>
    unfold attempt
    rw [complete_eq _ _ _ (not_abandoned_conclude _ _ _), answersOf_completed]
    exact curt_of_taken taken
  | succ left ih =>
    unfold attempt
    generalize r.prober.ask job.ip job.domain r.memory = reply
    obtain ⟨answer, remembered⟩ := reply
    simp only [note]
    by_cases instant : answer.delay = 0
    · simp only [instant, ↓reduceIte]
      let asking : Ranker σ := { r with
        memory := remembered
        journal := .asked n job.ip job.domain r.agenda.now :: r.journal }
      have taken' : ({} : Progress).takeAll (answersOf n asking.journal) = some progress := taken
      exact curt_absorb (r := asking) taken' fun r' progress' => ih
    · simp only [instant, ↓reduceIte]
      exact curt_of_taken taken

theorem curt_resumeJob (attends : Attends r) (known : r.jobs[n]? = some job)
    (curt : Curt (answersOf n r.journal)) : Curt (answersOf n (r.resumeJob n).journal) := by
  have attended := attends.attended n job known
  have blank (nothing : answersOf n r.journal = []) :
      ({} : Progress).takeAll (answersOf n r.journal) = some {} := by
    rw [nothing]
    rfl
  unfold resumeJob
  rw [known]
  cases stage : job.stage with
  | queued =>
    rw [stage] at attended
    by_cases runs : (r.flights.join job.key n).2.runs = true
    · simp only [stage, runs, ↓reduceIte]
      exact curt_attempt (r := { r with flights := (r.flights.join job.key n).1 }) _ (blank attended)
    · simp only [stage, runs, Bool.false_eq_true, ↓reduceIte]
      exact curt
  | waiting =>
    rw [stage] at attended
    simp only [stage]
    exact curt_attempt _ (blank attended)
  | attempting left progress sample =>
    rw [stage] at attended
    simp only [stage]
    exact curt_absorb attended.1 fun r' progress' => curt_attempt left
  | told outcome =>
    simp only [stage, finish_eq]
    have same : answersOf n ([.finished n r.agenda.now] ++ r.journal) = answersOf n r.journal :=
      answersOf_news (by simp) r.journal
    exact same ▸ curt
  | done outcome =>
    simp only [stage]
    exact curt

theorem curt_perform (agree : JobsAgree r) (act : Act σ) (curt : ∀ n, Curt (answersOf n r.journal))
    (n : Nat) :
    Curt (answersOf n (r.perform act).journal) := by
  have still {r' : Ranker σ} (lasts : Lasts r r') : Curt (answersOf n r'.journal) := by
    intro lost
    have same := lasts n (.inr (.inl lost))
    rw [same] at lost ⊢
    exact curt n lost
  by_cases isTurn : act = .turn
  · -- only a job's own turn that completes its measurement has to be opened
    subst isTurn
    obtain ⟨r', same, turn⟩ : ∃ r', r' = r.perform .turn ∧ Turn r r' := ⟨_, rfl, turn_perform r⟩
    rw [← same]
    cases turn with
    | rests empty => exact curt n
    | @ofJob m agenda job _ popped known turn =>
      obtain ⟨-, passes | concludes⟩ := attends_jobTurn agree.boarded agree.attends popped known turn
      · exact still passes.lasts
      · by_cases here : n = m
        · subst here
          have turned : r.perform .turn = resumeJob { r with agenda } n := perform_of_pop popped
          rw [same, turned]
          exact curt_resumeJob (r := { r with agenda }) agree.attends known (curt n)
        · rw [concludes.others n here]
          exact curt n
    | @ofRanking c agenda call _ popped known turn =>
      exact still (attends_rankingTurn (r := { r with agenda }) agree.attends turn).2.lasts
    | ofCancel popped known => exact curt n
    | lapses popped noJob noRanking => exact curt n
  · have aside := (outcome_perform r act).resolve_left fun turn => isTurn turn.1
    rw [aside.still.2]
    exact curt n

end Endings

section Runs

variable {r start : Ranker σ} {acts : List (Act σ)} {n : Nat} {job : Job}

/-- Every job's questions and answers come by turns, as its stage says, and nothing is heard behind a
first answer that is a failure. -/
structure DialogueInOrder (r : Ranker σ) : Prop where
  agree : JobsAgree r
  conversing : Conversing r
  curt : ∀ n, Curt (answersOf n r.journal)

theorem DialogueInOrder.perform (dialogue : DialogueInOrder r) (act : Act σ) :
    DialogueInOrder (r.perform act) where
  agree := dialogue.agree.perform act
  conversing := dialogue.conversing.perform dialogue.agree.boarded act
  curt := curt_perform dialogue.agree act dialogue.curt

theorem DialogueInOrder.after (dialogue : DialogueInOrder start) (acts : List (Act σ)) :
    DialogueInOrder (start.after acts) :=
  after_induction (fun _ act dialogue => dialogue.perform act) dialogue acts

theorem dialogueInOrder_make (settings : Settings) (base : String) (disk : Disk) (prober : Prober σ)
    (memory : σ) (clock : WallClock) : DialogueInOrder (make settings base disk prober memory clock) where
  agree := jobsAgree_make ..
  conversing := ⟨fun n job known => (by cases known), fun n _ => rfl⟩
  curt := fun n lost => (by cases lost)

/-- A job has asked as often as it had answers, and once more while it waits for one. -/
theorem DialogueInOrder.timesAsked_eq (dialogue : DialogueInOrder r) (known : r.jobs[n]? = some job) :
    timesAsked n r.journal = (answersOf n r.journal).length + (r.outstanding n).isSome.toNat := by
  rw [← timesAsked_saidBy, ← answersOf_saidBy]
  exact (dialogue.conversing.alternates n job known).counts

theorem outstanding_of_done {outcome : Measurement} (known : r.jobs[n]? = some job)
    (stage : job.stage = .done outcome) : r.outstanding n = none := by
  rw [outstanding, known, Option.bind_some, stage]
  rfl

theorem DialogueInOrder.timesAsked_le (dialogue : DialogueInOrder r) (known : r.jobs[n]? = some job) :
    timesAsked n r.journal ≤ r.settings.attemptCount := by
  have positive := attemptCount_pos r.settings
  have attended := dialogue.agree.attends.attended n job known
  have count := dialogue.timesAsked_eq known
  rw [outstanding, known, Option.bind_some] at count
  rw [count]
  cases stage : job.stage with
  | attempting left progress sample =>
    -- the question that has no answer yet is counted by the stage
    rw [stage] at attended
    have counted := attended.2.1
    simp only [JobStage.pending?, Option.isSome_some, Bool.toNat_true]
    omega
  | done outcome =>
    rw [stage] at attended
    simp only [JobStage.pending?, Option.isSome_none, Bool.toNat_false, Nat.add_zero]
    rcases attended with nothing | ⟨lost | all, -⟩
    · rw [nothing]
      exact Nat.zero_le _
    · rw [dialogue.curt n lost]
      exact positive
    · exact Nat.le_of_eq all
  | _ =>
    rw [stage] at attended
    have nothing : answersOf n r.journal = [] := attended
    rw [nothing]
    exact Nat.zero_le _

/-- Whoever has asked, and is left alone, comes to the end of a measurement of its own. -/
theorem DialogueInOrder.comes (dialogue : DialogueInOrder r) (known : r.jobs[n]? = some job)
    (asked : 0 < timesAsked n r.journal) :
    ∃ steps, Complete r.settings.attemptCount (answersOf n (r.after (alone steps r)).journal) := by
  obtain ⟨steps, done⟩ := done_eventually dialogue.agree.boarded
  obtain ⟨outcome, known'⟩ := done n job known
  refine ⟨steps, ?_⟩
  have later := dialogue.after (alone steps r)
  obtain ⟨news, journal⟩ := journal_after dialogue.agree.boarded (alone steps r)
  have asked' : 0 < timesAsked n (r.after (alone steps r)).journal := by
    rw [journal, timesAsked, List.countP_append]
    exact Nat.add_pos_right _ asked
  have count := later.timesAsked_eq known'
  rw [outstanding_of_done known' rfl] at count
  -- without an answer of its own it had been told another's outcome, and would not have asked
  rcases later.agree.attends.attended n _ known' with nothing | ⟨complete, -⟩
  · rw [count, nothing] at asked'
    exact absurd asked' (Nat.lt_irrefl 0)
  · rw [settings_after] at complete
    exact complete

end Runs

section Specification

variable {start : Ranker σ} {acts : List (Act σ)} {n : Nat} {job : Job}

/-- A job has given its address up in a course, after it had asked once. -/
structure GaveUp (start : Ranker σ) (acts : List (Act σ)) (n : Nat) (job : Job) : Prop where
  asked : timesAsked n (start.after acts).journal = 1
  answers : answersOf n (start.after acts).journal = [none]
  outcome : job.stage = .done (.givenUp job.ip)
  /-- With one turn a fast failure came into the histories, and nothing else is due for the job. -/
  entered : ∃ front back, acts = front ++ .turn :: back ∧
    (start.after (front ++ [.turn])).history =
      (start.after front).history.note (.fastFailed job.ip (start.after front).wall) ∧
    (start.chronicle acts).filter (Deed.isOf n) =
      [.measured n job.ip [none] (start.after front).wall]

/-- The measurement that a job makes in a course is the one that is specified. -/
structure Specified (start : Ranker σ) (acts : List (Act σ)) (n : Nat) (job : Job) : Prop where
  /-- It asks about its own pair, and not again before it has heard the answer. -/
  turns : Alternates n job.ip job.domain (saidBy n (start.after acts).journal)
    ((start.after acts).outstanding n).isSome
  atMost : timesAsked n (start.after acts).journal ≤ start.settings.attemptCount
  gaveUp : (answersOf n (start.after acts).journal).head? = some none → GaveUp start acts n job
  amounts : ∀ first, (answersOf n (start.after acts).journal).head? = some (some first) →
    (answersOf n (start.after acts).journal).length = start.settings.attemptCount →
      timesAsked n (start.after acts).journal = start.settings.attemptCount ∧
        ∃ m, job.stage = .done m ∧
          Amounts job.ip start.settings.strategy first (answersOf n (start.after acts).journal) m
  /-- Nothing comes to the measurement that stands for none, not even from another job. -/
  alive : ∀ m, job.stage = .done m → ∀ ip, m ≠ .dead ip
  /-- Once it has asked, all that it waits for comes. -/
  comes : 0 < timesAsked n (start.after acts).journal → ∃ steps,
    Complete start.settings.attemptCount
      (answersOf n (start.after (acts ++ alone steps (start.after acts))).journal)

variable (dialogue : DialogueInOrder start) (silent : start.journal = [])

include dialogue silent in
theorem gaveUp_of_lost (known : (start.after acts).jobs[n]? = some job)
    (lost : (answersOf n (start.after acts).journal).head? = some none) : GaveUp start acts n job := by
  have later := dialogue.after acts
  have answers := later.curt n lost
  obtain ⟨front, back, job', measures⟩ := (once_after dialogue.agree silent acts n).complete (.inl lost)
  cases measures.known.symm.trans known
  have outcome := measures.outcome
  rw [(result_of_lost lost job.ip 0).1] at outcome
  have count := later.timesAsked_eq known
  rw [outstanding_of_done known outcome, answers] at count
  refine ⟨count, answers, outcome, front, back, measures.moment, ?_, answers ▸ measures.due⟩
  -- the answer that made it complete is the only one that it ever had
  have before := dialogue.agree.after front
  obtain ⟨takes, -⟩ := taken_perform before.boarded before.attends .turn
  obtain ⟨job', own, concludes, -⟩ := measures.completes.concludes takes
  have lost' : (answersOf n ((start.after front).perform .turn).journal).head? = some none := by
    obtain ⟨news, journal⟩ := journal_after (before.perform .turn).boarded back
    have all : (start.after acts).journal = news ++ ((start.after front).perform .turn).journal := by
      rw [measures.moment, after_append]
      exact journal
    rw [all, answersOf_append] at lost
    cases early : answersOf n ((start.after front).perform .turn).journal with
    | nil => exact absurd early (answered_of_complete (r := start.after front) concludes.complete)
    | cons answer rest =>
      rw [early] at lost
      exact lost
  have entry : verdictOf job'.ip (answersOf n ((start.after front).perform .turn).journal)
      (start.after front).wall = .fastFailed job'.ip (start.after front).wall := if_pos lost'
  rw [after_append]
  exact own ▸ entry ▸ concludes.history

include dialogue in
theorem amounts_of_all (few : start.settings.attemptCount ≤ Unsigned.greatest32)
    (known : (start.after acts).jobs[n]? = some job) {first : Sample}
    (began : (answersOf n (start.after acts).journal).head? = some (some first))
    (all : (answersOf n (start.after acts).journal).length = start.settings.attemptCount) :
    timesAsked n (start.after acts).journal = start.settings.attemptCount ∧
      ∃ m, job.stage = .done m ∧
        Amounts job.ip start.settings.strategy first (answersOf n (start.after acts).journal) m := by
  have outcome := dialogue.agree.outcome known (.inr all)
  have count := (dialogue.after acts).timesAsked_eq known
  rw [outstanding_of_done known outcome, all] at count
  have amounts := (measure_amounts job.ip start.settings.strategy (attemptCount_pos _) few all).2
  exact ⟨count, _, outcome, (amounts first began).2⟩

include dialogue silent in
theorem alive_of_complete (few : start.settings.attemptCount ≤ Unsigned.greatest32)
    (known : (start.after acts).jobs[n]? = some job)
    (complete : Complete start.settings.attemptCount (answersOf n (start.after acts).journal))
    {m : Measurement} (stage : job.stage = .done m) (ip : String) : m ≠ .dead ip := by
  rintro rfl
  have lost : (answersOf n (start.after acts).journal).head? ≠ some none := by
    intro lost
    have outcome := (gaveUp_of_lost dialogue silent known lost).outcome
    rw [stage, JobStage.done.injEq] at outcome
    exact absurd (congrArg Measurement.abandoned outcome) (by simp [Measurement.dead, Measurement.givenUp])
  have all := complete.resolve_left lost
  cases began : (answersOf n (start.after acts).journal).head? with
  | none =>
    rw [List.head?_eq_none_iff.mp began] at all
    exact absurd all (Nat.ne_of_lt (attemptCount_pos _))
  | some answer =>
    cases answer with
    | none => exact lost began
    | some first =>
      obtain ⟨-, m, outcome, amounts⟩ := amounts_of_all dialogue few known began all
      cases stage.symm.trans outcome
      exact amounts.alive (congrArg Measurement.dead amounts.address)

include dialogue silent in
theorem specified_after (nobody : start.jobs = [])
    (few : start.settings.attemptCount ≤ Unsigned.greatest32)
    (known : (start.after acts).jobs[n]? = some job) : Specified start acts n job := by
  have later := dialogue.after acts
  have settings : (start.after acts).settings = start.settings := settings_after start acts
  refine ⟨later.conversing.alternates n job known, settings ▸ later.timesAsked_le known,
    gaveUp_of_lost dialogue silent known, fun _ => amounts_of_all dialogue few known, ?_, ?_⟩
  · intro m stage
    obtain ⟨k, leader, known', -, stage', complete⟩ :=
      led_after dialogue.agree nobody acts n job m known (by rw [Job.heard?, stage])
    rw [settings] at complete
    exact alive_of_complete dialogue silent few known' complete stage'
  · intro asked
    obtain ⟨steps, complete⟩ := later.comes known asked
    refine ⟨steps, ?_⟩
    rw [after_append, ← settings]
    exact complete

/-- A measurement is the one that is specified, for every sequence of outcomes and in every course of a
ranker. -/
theorem measurement_specified (settings : Settings) (base : String) (disk : Disk) (prober : Prober σ)
    (memory : σ) (clock : WallClock) (word : settings.attempts ≤ Unsigned.greatest32) :
    (∀ (ip : String) (strategy : Strategy) (count : Nat) (answers : List (Option Sample)),
      1 ≤ count → count ≤ Unsigned.greatest32 → answers.length = count →
        (answers.head? = some none →
          LatencyRank.measure ip strategy count {} answers = (.givenUp ip, 1)) ∧
        ∀ first, answers.head? = some (some first) →
          (LatencyRank.measure ip strategy count {} answers).2 = count ∧
            Amounts ip strategy first answers (LatencyRank.measure ip strategy count {} answers).1) ∧
    ∀ acts n job,
      ((make settings base disk prober memory clock).after acts).jobs[n]? = some job →
        Specified (make settings base disk prober memory clock) acts n job := by
  constructor
  · exact fun ip strategy count answers some' few all => measure_amounts ip strategy some' few all
  · intro acts n job known
    have few : (make settings base disk prober memory clock).settings.attemptCount ≤
        Unsigned.greatest32 := by
      change max (Settings.orUsual settings.attempts 3) 1 ≤ Unsigned.greatest32
      rw [Settings.orUsual]
      split
      · decide
      · exact max_le word (by decide)
    exact specified_after (dialogueInOrder_make ..) rfl rfl few known

/-- Of two addresses one fails at once and is asked about once; the other loses the second of three
attempts, and has the mean of the other latencies and a penalty. -/
theorem measurement_specified_of_two :
    let scripts := Scripts.direct .empty "10.0.0.2"
      { upcoming := [⟨0, some ⟨21, .tls⟩⟩, ⟨3, none⟩], usual := some ⟨0, some ⟨20, .icmp⟩⟩ }
    let start := make {} "" .empty Scripts.prober scripts ⟨0⟩
    let acts : List (Act Scripts) :=
      [.request ["10.0.0.9", "10.0.0.2"] "example" 0 none, .turn, .turn, .turn, .turn, .tick, .turn]
    ({} : Settings).attempts ≤ Unsigned.greatest32 ∧
      (∃ job, (start.after acts).jobs[0]? = some job ∧ GaveUp start acts 0 job) ∧
      ∃ job m, (start.after acts).jobs[1]? = some job ∧ timesAsked 1 (start.after acts).journal = 3 ∧
        job.stage = .done m ∧ m.method = .tls ∧ m.latency = 20 + 150 ∧ m.loss < Measurement.totalLoss := by
  intro scripts start acts
  have word : ({} : Settings).attempts ≤ Unsigned.greatest32 := by decide
  obtain ⟨-, specified⟩ := measurement_specified {} "" .empty Scripts.prober scripts ⟨0⟩ word
  have both : (start.after acts).jobs.length = 2 := by
    dsimp only [acts, start, scripts]
    decide +kernel
  have lost : answersOf 0 (start.after acts).journal = [none] := by
    dsimp only [acts, start, scripts]
    decide +kernel
  have answers : answersOf 1 (start.after acts).journal =
      [some ⟨21, .tls⟩, none, some ⟨20, .icmp⟩] := by
    dsimp only [acts, start, scripts]
    decide +kernel
  have first := List.getElem?_eq_getElem (l := (start.after acts).jobs) (i := 0) (by omega)
  have second := List.getElem?_eq_getElem (l := (start.after acts).jobs) (i := 1) (by omega)
  refine ⟨word, ⟨_, first, (specified acts 0 _ first).gaveUp (by rw [lost]; rfl)⟩, ?_⟩
  obtain ⟨asked, m, stage, amounts⟩ :=
    (specified acts 1 _ second).amounts ⟨21, .tls⟩ (by rw [answers]; rfl) (by rw [answers]; rfl)
  obtain ⟨-, base, combines, latency⟩ := amounts.latency
  rw [answers] at combines latency
  have mean : base = 20 := combines.trans (by decide)
  exact ⟨_, m, second, asked, stage, amounts.method, by rw [latency, mean]; rfl, amounts.partly⟩

end Specification

end Ranker

end LatencyRank
