import Mathlib
import LatencyRank.Proofs.Ranker.Boarding

/-!
What jobs ask the prober and what they hear. In its turn a job takes up the answer that it waited
for; then it asks and hears by turns, and it ends with one answer outstanding or with none. Nothing
else that is done with a ranker asks the prober, and what the prober remembers is what it was asked.
-/

namespace LatencyRank

def JobStage.pending? : JobStage → Option (Option Sample)
  | .attempting _ _ sample => some sample
  | .queued | .waiting | .told _ | .done _ => none

def RankerEvent.isMute : RankerEvent → Bool
  | .asked .. | .answered .. => false
  | .spawned .. | .measured .. | .finished .. | .returned .. => true

namespace Ranker

variable {σ : Type}

section Talks

/-- What passes between a job and the prober at one instant, the latest first: from what the prober
remembered and the answer that was outstanding to those afterwards. -/
inductive Talk (prober : Prober σ) (n : Nat) (ip domain : String) (now : Nat) (memory : σ)
    (pending : Option (Option Sample)) :
    List RankerEvent → σ → Option (Option Sample) → Prop
  | silence : Talk prober n ip domain now memory pending [] memory pending
  | asks {news : List RankerEvent} {memory' : σ}
      (talk : Talk prober n ip domain now memory pending news memory' none) :
      Talk prober n ip domain now memory pending (.asked n ip domain now :: news)
        (prober.ask ip domain memory').2 (some (prober.ask ip domain memory').1.sample)
  | hears {news : List RankerEvent} {memory' : σ} {sample : Option Sample}
      (talk : Talk prober n ip domain now memory pending news memory' (some sample)) :
      Talk prober n ip domain now memory pending (.answered n sample now :: news) memory' none

def outstanding (r : Ranker σ) (n : Nat) : Option (Option Sample) :=
  r.jobs[n]?.bind fun job => job.stage.pending?

variable {r r' : Ranker σ} {n : Nat} {job : Job} {agenda : Agenda Task} {memory : σ}
  {pending : Option (Option Sample)} {journal news : List RankerEvent}

/-- What a job says in its turn comes first, and then how the turn ended. -/
structure Speaks (r : Ranker σ) (n : Nat) (job : Job) (memory : σ) (pending : Option (Option Sample))
    (journal : List RankerEvent) (r' : Ranker σ) : Prop where
  talk : ∃ tail news pending', r'.journal = tail ++ (news ++ journal) ∧
    (∀ event ∈ tail, event.isMute = true) ∧ r'.outstanding n = pending' ∧
    Talk r.prober n job.ip job.domain r.agenda.now memory pending news r'.memory pending'

theorem outstanding_modify {jobs : List Job} (inside : n < jobs.length) (stage : JobStage)
    (shape : r.jobs = jobs.modify n (.atStage stage)) : r.outstanding n = stage.pending? := by
  rw [outstanding, shape, List.getElem?_modify_eq, List.getElem?_eq_getElem inside]
  rfl

theorem speaks_completed (inside : n < r.jobs.length) (m : Measurement)
    (shape : r.journal = news ++ journal)
    (talk : Talk r.prober n job.ip job.domain r.agenda.now memory pending news r.memory none) :
    Speaks r n job memory pending journal (r.completed n job m) := by
  refine ⟨[.finished n r.agenda.now, .measured n m r.wall], news, none, ?_, ?_, ?_, talk⟩
  · change _ :: _ :: r.journal = _
    rw [shape]
    rfl
  · simp [RankerEvent.isMute]
  · have inside' : n < (toldAll m (r.flights.land job.key).2 r.jobs).length := by
      rwa [toldAll, length_modifyAll]
    exact outstanding_modify inside' (.done m) rfl

theorem speaks_attempt (left : Nat) (inside : n < r.jobs.length) (progress : Progress)
    (shape : r.journal = news ++ journal)
    (talk : Talk r.prober n job.ip job.domain r.agenda.now memory pending news r.memory none) :
    Speaks r n job memory pending journal (attempt n job left r progress) := by
  induction left generalizing r news progress with
  | zero =>
    unfold attempt
    rw [complete_eq _ _ _ (not_abandoned_conclude _ _ _)]
    exact speaks_completed inside _ shape talk
  | succ left ih =>
    unfold attempt
    have asked := talk.asks
    -- An answer without delay is heard within the turn, any other one in a turn of its own.
    generalize r.prober.ask job.ip job.domain r.memory = reply at asked
    obtain ⟨answer, remembered⟩ := reply
    simp only [note]
    by_cases instant : answer.delay = 0
    · let later : Ranker σ := { r with
        memory := remembered
        journal := .answered n answer.sample r.agenda.now ::
          .asked n job.ip job.domain r.agenda.now :: r.journal }
      have shape' : later.journal = .answered n answer.sample r.agenda.now ::
          .asked n job.ip job.domain r.agenda.now :: news ++ journal := congrArg (_ :: _ :: ·) shape
      have heard : Talk later.prober n job.ip job.domain later.agenda.now memory pending _
          later.memory none := asked.hears
      simp only [instant, ↓reduceIte, absorb, note]
      cases progress.take answer.sample with
      | none =>
        have closed : (later.fastFail job.ip).complete n job (.givenUp job.ip) =
            later.completed n job (.givenUp job.ip) := complete_givenUp later n job
        have ends := speaks_completed (r := later) inside (.givenUp job.ip) shape' heard
        rw [← closed] at ends
        exact ⟨ends.talk⟩
      | some progress' => exact ⟨(ih (r := later) inside progress' shape' heard).talk⟩
    · simp only [instant, ↓reduceIte]
      refine ⟨[], .asked n job.ip job.domain r.agenda.now :: news, _, congrArg (_ :: ·) shape, by simp,
        outstanding_modify inside (.attempting left progress answer.sample) rfl, asked⟩

theorem speaks_resumeJob (known : r.jobs[n]? = some job) :
    Speaks r n job r.memory job.stage.pending? r.journal (r.resumeJob n) := by
  have inside := (List.getElem?_eq_some_iff.mp known).1
  unfold resumeJob
  rw [known]
  cases stage : job.stage with
  | queued =>
    by_cases runs : (r.flights.join job.key n).2.runs = true
    · simp only [stage, runs, ↓reduceIte]
      let later : Ranker σ := { r with flights := (r.flights.join job.key n).1 }
      have measures : Speaks later n job r.memory none r.journal
          (attempt n job r.settings.attemptCount later {}) :=
        speaks_attempt (r := later) _ inside {} (List.nil_append _).symm .silence
      exact ⟨measures.talk⟩
    · simp only [stage, runs, Bool.false_eq_true, ↓reduceIte]
      exact ⟨[], [], _, rfl, by simp, outstanding_modify inside .waiting rfl, .silence⟩
  | waiting =>
    simp only [stage]
    exact speaks_attempt _ inside {} (List.nil_append _).symm .silence
  | attempting left progress sample =>
    let later : Ranker σ := r.note (.answered n sample r.agenda.now)
    have heard : Talk later.prober n job.ip job.domain later.agenda.now r.memory (some sample)
        [.answered n sample r.agenda.now] later.memory none := Talk.hears .silence
    simp only [stage, absorb]
    cases progress.take sample with
    | none =>
      have closed : (later.fastFail job.ip).complete n job (.givenUp job.ip) =
          later.completed n job (.givenUp job.ip) := complete_givenUp later n job
      have ends : Speaks later n job r.memory (some sample) r.journal
          (later.completed n job (.givenUp job.ip)) := speaks_completed (r := later) inside _ rfl heard
      rw [← closed] at ends
      exact ⟨ends.talk⟩
    | some progress' =>
      have goesOn : Speaks later n job r.memory (some sample) r.journal
          (attempt n job left later progress') :=
        speaks_attempt (r := later) left inside progress' rfl heard
      exact ⟨goesOn.talk⟩
  | told outcome =>
    simp only [stage, finish_eq]
    exact ⟨[.finished n r.agenda.now], [], _, rfl, by simp [RankerEvent.isMute],
      outstanding_modify inside (.done outcome) rfl, .silence⟩
  | done outcome =>
    simp only [stage]
    refine ⟨[], [], _, rfl, by simp, ?_, .silence⟩
    rw [outstanding, known, Option.bind_some, stage]

end Talks

section Turns

variable {r r' : Ranker σ} {n : Nat} {job : Job} {agenda : Agenda Task}

/-- All that an act can add to the dialogue: nothing, or what one job says at one instant while no
other makes an attempt for its pair. -/
inductive Converses (r : Ranker σ) (act : Act σ) : Prop
  | silent (news : List RankerEvent) (journal : (r.perform act).journal = news ++ r.journal)
      (mute : ∀ event ∈ news, event.isMute = true)
      (same : (r.perform act).outstanding = r.outstanding)
      (memory : (∀ memory, act ≠ .behave memory) → (r.perform act).memory = r.memory)
  | speaks (n : Nat) (job : Job) (tail news : List RankerEvent) (pending : Option (Option Sample))
      (turn : act = .turn) (known : r.jobs[n]? = some job) (open' : job.isDone = false)
      (journal : (r.perform act).journal = tail ++ (news ++ r.journal))
      (mute : ∀ event ∈ tail, event.isMute = true)
      (talk : Talk r.prober n job.ip job.domain r.agenda.now r.memory (r.outstanding n) news
        (r.perform act).memory pending)
      (changed : (r.perform act).outstanding = Function.update r.outstanding n pending)
      (single : ∀ m other, r.jobs[m]? = some other → other.isAttempting = true →
        other.key = job.key → m = n)

theorem outstanding_eq_none_iff : r.outstanding n = none ↔
    ∀ job, r.jobs[n]? = some job → job.isAttempting = false := by
  unfold outstanding
  cases known : r.jobs[n]? with
  | none => simp
  | some job => cases stage : job.stage <;> simp [JobStage.pending?, Job.isAttempting, stage]

theorem outstanding_others (boarded : Boarded r.flights r.agenda r.jobs)
    (popped : r.agenda.pop? = some (.job n, agenda)) (known : r.jobs[n]? = some job)
    (turn : JobTurn { r with agenda } n job r') {k : Nat} (different : k ≠ n) :
    r'.outstanding k = r.outstanding k := by
  have staged {jobs : List Job} (stage : JobStage) (shape : r'.jobs = jobs.modify n (.atStage stage))
      (same : (jobs[k]?.bind fun job => job.stage.pending?) = r.outstanding k) :
      r'.outstanding k = r.outstanding k := by
    rw [outstanding, shape, List.getElem?_modify_ne _ _ (Ne.symm different), same]
  have told {flights : Flights} (m : Measurement) (underway : Underway flights agenda r.jobs n job) :
      ((toldAll m (flights.land job.key).2 r.jobs)[k]?.bind fun job => job.stage.pending?) =
        r.outstanding k := by
    rw [getElem?_toldAll, outstanding]
    split
    · rename_i waited
      obtain ⟨-, other, known', -, stage⟩ := waited_of_underway underway waited
      rw [known', Option.map_some, Option.bind_some, Option.bind_some, stage]
      rfl
    · rfl
  cases turn with
  | waits stage behind => exact staged .waiting rfl rfl
  | sleeps begins news memory sample delay attempts reported took fewer positive =>
    exact staged _ rfl rfl
  | concludes begins news memory attempts reported took all =>
    obtain ⟨underway, -⟩ := underway_of_begins boarded popped known begins
    exact staged _ rfl (told _ underway)
  | givesUp begins news memory attempts reported failed =>
    obtain ⟨underway, -⟩ := underway_of_begins boarded popped known begins
    exact staged _ rfl (told _ underway)
  | ends stage =>
    rw [finish_eq] at staged ⊢
    exact staged (.done _) rfl rfl
  | idle stage => rfl

theorem outstanding_of_enlists {recruits : List Job} (enlists : Enlists r recruits r') :
    r'.outstanding = r.outstanding := by
  funext k
  unfold outstanding
  rw [enlists.jobs, List.getElem?_append]
  split
  · rfl
  · rename_i outside
    rw [List.getElem?_eq_none (Nat.not_lt.mp outside), Option.bind_none, Option.bind_eq_none_iff]
    intro job known
    rw [enlists.fresh job (List.mem_of_getElem? known)]
    rfl

theorem memory_perform (act : Act σ) (noTurn : act ≠ .turn) (still : ∀ memory, act ≠ .behave memory) :
    (r.perform act).memory = r.memory := by
  cases act with
  | turn => exact absurd rfl noTurn
  | behave memory => exact absurd rfl (still memory)
  | tick =>
    simp only [perform, tick?]
    cases r.agenda.tick? <;> rfl
  | cancel c =>
    cases known : r.rankings[c]? with
    | none => rw [perform, cancel_of_none known]
    | some call => rw [perform, cancel_eq known, afterCancel]
  | sweep =>
    simp only [perform, sweep]
    split <;> rfl
  | stop disk =>
    simp only [perform, stop]
    split <;> rfl
  | _ => rfl

/-- Two jobs that make attempts for one pair are one job. -/
theorem attempting_unique (boarded : Boarded r.flights r.agenda r.jobs) {m : Nat} {other : Job}
    (known : r.jobs[n]? = some job) (attempts : job.isAttempting = true)
    (known' : r.jobs[m]? = some other) (attempts' : other.isAttempting = true)
    (sameKey : other.key = job.key) : m = n := by
  have runs := (boarded.placed n job id known).runs.mpr attempts
  have runs' := (boarded.placed m other id known').runs.mpr attempts'
  rw [sameKey] at runs'
  exact Flights.runs_unique runs' runs

theorem alone_of_begins (boarded : Boarded r.flights r.agenda r.jobs)
    (popped : r.agenda.pop? = some (.job n, agenda)) (known : r.jobs[n]? = some job) {flights : Flights}
    {total : Nat} {progress : Progress} {answers : List (Option Sample)}
    (begins : Begins { r with agenda } n job flights total progress answers) {m : Nat} {other : Job}
    (known' : r.jobs[m]? = some other) (attempts : other.isAttempting = true)
    (sameKey : other.key = job.key) : m = n := by
  obtain ⟨underway, -⟩ := underway_of_begins boarded popped known begins
  by_contra different
  have runs := (underway.others.placed m other different known').runs.mpr attempts
  rw [sameKey] at runs
  exact different (Flights.runs_unique runs underway.runs)

/-- Whoever speaks in its turn is the only one that makes attempts for its pair, or says nothing. -/
theorem converses_of_job (boarded : Boarded r.flights r.agenda r.jobs)
    (popped : r.agenda.pop? = some (.job n, agenda)) (known : r.jobs[n]? = some job) :
    Converses r .turn := by
  have turned : r.perform .turn = resumeJob { r with agenda } n := perform_of_pop popped
  have turn : JobTurn { r with agenda } n job (r.perform .turn) := turned ▸ resumeJob_turn known
  obtain ⟨tail, news, pending, journal, mute, now, talk⟩ :
      ∃ tail news pending', (r.perform .turn).journal = tail ++ (news ++ r.journal) ∧
        (∀ event ∈ tail, event.isMute = true) ∧ (r.perform .turn).outstanding n = pending' ∧
        Talk r.prober n job.ip job.domain agenda.now r.memory job.stage.pending? news
          (r.perform .turn).memory pending' :=
    turned ▸ (speaks_resumeJob (r := { r with agenda }) known).talk
  have before : r.outstanding n = job.stage.pending? := by rw [outstanding, known, Option.bind_some]
  have clock : agenda.now = r.agenda.now := (Agenda.pop?_eq_some popped).2.2
  rw [clock, ← before] at talk
  have changed : (r.perform .turn).outstanding = Function.update r.outstanding n pending := by
    funext k
    by_cases here : k = n
    · rw [here, Function.update_self, now]
    · rw [Function.update_of_ne here]
      exact outstanding_others boarded popped known turn here
  have speaking {flights : Flights} {total : Nat} {progress : Progress}
      {answers : List (Option Sample)}
      (begins : Begins { r with agenda } n job flights total progress answers) :
      Converses r .turn :=
    .speaks n job tail news pending rfl known (open_of_begins begins) journal mute talk changed
      fun _ _ => alone_of_begins boarded popped known begins
  have silent (calm : job.stage.pending? = none) (over' : pending = none)
      (events : List RankerEvent) (told : (r.perform .turn).journal = events ++ r.journal)
      (dumb : ∀ event ∈ events, event.isMute = true) (memory : (r.perform .turn).memory = r.memory) :
      Converses r .turn := by
    refine .silent events told dumb ?_ fun _ => memory
    rw [changed, over', ← calm, ← before, Function.update_eq_self]
  -- The state after the turn gets a name of its own, for the cases are split on its form.
  obtain ⟨r', same, turn⟩ : ∃ r', r' = r.perform .turn ∧ JobTurn { r with agenda } n job r' :=
    ⟨_, rfl, turn⟩
  rw [← same] at now
  cases turn with
  | waits stage behind =>
    refine silent (by rw [stage]; rfl) ?_ [] (same ▸ rfl) (by simp) (same ▸ rfl)
    rw [← now]
    exact outstanding_modify (List.getElem?_eq_some_iff.mp known).1 .waiting rfl
  | sleeps begins => exact speaking begins
  | concludes begins => exact speaking begins
  | givesUp begins => exact speaking begins
  | @ends outcome stage =>
    rw [finish_eq] at same now
    refine silent (by rw [stage]; rfl) ?_ [.finished n agenda.now] (same ▸ rfl)
      (by simp [RankerEvent.isMute]) (same ▸ rfl)
    rw [← now]
    exact outstanding_modify (List.getElem?_eq_some_iff.mp known).1 (.done outcome) rfl
  | idle stage =>
    refine silent (by rw [stage]; rfl) ?_ [] (same ▸ rfl) (by simp) (same ▸ rfl)
    rw [← now, outstanding, known, Option.bind_some, stage]
    rfl

/-- Jobs alone speak with the prober. -/
theorem converses_perform (r : Ranker σ) (act : Act σ)
    (boarded : Boarded r.flights r.agenda r.jobs) : Converses r act := by
  have unmoved {r' : Ranker σ} (jobs : r'.jobs = r.jobs) : r'.outstanding = r.outstanding := by
    funext k
    rw [outstanding, outstanding, jobs]
  by_cases isTurn : act = .turn
  · subst isTurn
    obtain ⟨r', same, turn⟩ : ∃ r', r' = r.perform .turn ∧ Turn r r' := ⟨_, rfl, turn_perform r⟩
    cases turn with
    | rests empty => exact .silent [] (same ▸ rfl) (by simp) (same ▸ rfl) fun _ => same ▸ rfl
    | ofJob popped known turn => exact converses_of_job boarded popped known
    | @ofRanking c agenda call _ popped known turn =>
      rcases recruits_of_turn turn with rfl | ⟨recruits, r'', call'', news, enlisted, rfl, returned⟩
      · exact .silent [] (same ▸ rfl) (by simp) (same ▸ rfl) fun _ => same ▸ rfl
      · obtain ⟨spawned, journal, only⟩ := enlisted.enlists.journal
        refine .silent (news ++ spawned) ?_ ?_ ?_ fun _ => ?_
        · rw [← same]
          change news ++ r''.journal = _
          rw [journal, List.append_assoc]
        · intro event member
          rcases List.mem_append.mp member with new | old
          · obtain ⟨time, rfl⟩ := returned event new
            rfl
          · obtain ⟨m, owner, rfl⟩ := only event old
            rfl
        · rw [← same]
          exact (outstanding_of_enlists enlisted.enlists :)
        · rw [← same]
          change r''.memory = r.memory
          rw [enlisted.enlists.same]
    | ofCancel popped known => exact .silent [] (same ▸ rfl) (by simp) (same ▸ rfl) fun _ => same ▸ rfl
    | lapses popped noJob noRanking =>
      exact .silent [] (same ▸ rfl) (by simp) (same ▸ rfl) fun _ => same ▸ rfl
  · have aside := (outcome_perform r act).resolve_left fun turn => isTurn turn.1
    exact .silent [] aside.still.2 (by simp) (unmoved aside.still.1) (memory_perform act isTurn)

theorem journal_perform (boarded : Boarded r.flights r.agenda r.jobs) (act : Act σ) :
    ∃ news, (r.perform act).journal = news ++ r.journal := by
  cases converses_perform r act boarded with
  | silent news journal => exact ⟨news, journal⟩
  | speaks n job tail news pending turn known open' journal =>
    exact ⟨tail ++ news, by rw [journal, List.append_assoc]⟩

theorem journal_after (boarded : Boarded r.flights r.agenda r.jobs) (acts : List (Act σ)) :
    ∃ news, (r.after acts).journal = news ++ r.journal := by
  induction acts using List.reverseRecOn with
  | nil => exact ⟨[], rfl⟩
  | append_singleton acts act ih =>
    obtain ⟨news, journal⟩ := ih
    obtain ⟨later, journal'⟩ := journal_perform (boarded_after boarded acts) act
    rw [after_append]
    exact ⟨later ++ news, by rw [List.append_assoc, ← journal]; exact journal'⟩

end Turns

end Ranker

end LatencyRank
