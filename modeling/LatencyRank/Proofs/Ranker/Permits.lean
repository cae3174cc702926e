import Mathlib
import LatencyRank.Proofs.Ranker.Tally
import LatencyRank.Proofs.Ranker.Muster

/-!
Permits. The jobs of a ranking that are not done and the permits that it has left make up its limit,
while it goes on, once it is called off and when its jobs outlive it. Whoever waits for a permit or
for jobs is called when one of them comes, so a ranking that is left alone does not wait for ever.
-/

namespace LatencyRank

namespace Ranker

variable {σ : Type}

section Relief

variable {r r' : Ranker σ} {agenda : Agenda Task} {n c : Nat} {job : Job}

/-- What a turn of a job is to the permits: nothing, or the job ends and its owner is called. -/
inductive Relieves (r : Ranker σ) (job : Job) (r' : Ranker σ) : Prop
  | silent (rankings : r'.rankings = r.rankings) (same : ∀ c, live c r'.jobs = live c r.jobs)
  | ended (outcome : Measurement) (notDone : job.isDone = false)
      (rankings : r'.rankings = rankingsAfter r.rankings outcome job.owner)
      (fewer : ∀ c, live c r'.jobs + liveOf c job = live c r.jobs)
      (heeded : ∀ task ∈ heeding r.rankings job.owner, task ∈ r'.agenda.ready)

theorem relieves_completed {flights : Flights} {m : Measurement}
    (underway : Underway flights agenda r.jobs n job) (known : r.jobs[n]? = some job)
    (notDone : job.isDone = false) (memory : σ) (journal : List RankerEvent) :
    Relieves r job (completed { r with agenda, flights, memory, journal } n job m) := by
  refine .ended m notDone rfl (fun c => ?_) fun task heeds => ?_
  · have ended := live_ended (still_of_underway underway known m) m c
    rwa [(sameCrew_toldAll (open_of_waited underway) c).1] at ended
  · exact (Agenda.mem_ready_wakeAll _ _ _).mpr (Or.inr heeds)

theorem relieves_of_turn (boarded : Boarded r.flights r.agenda r.jobs)
    (popped : r.agenda.pop? = some (.job n, agenda)) (known : r.jobs[n]? = some job)
    (turn : JobTurn { r with agenda } n job r') : Relieves r job r' := by
  cases turn with
  | waits stage behind =>
    have same : (job.atStage .waiting).isDone = job.isDone := by simp [Job.isDone, Job.atStage, stage]
    exact .silent rfl fun c => (sameCrew_stage known .waiting same c).1
  | @sleeps flights total left before after pending answers begins news memory sample delay attempts
      reported took fewer positive =>
    have same : (job.atStage (.attempting left after sample)).isDone = job.isDone :=
      (open_of_begins begins).symm
    exact .silent rfl fun c => (sameCrew_stage known _ same c).1
  | concludes begins news memory attempts reported took all =>
    obtain ⟨underway, -⟩ := underway_of_begins boarded popped known begins
    exact relieves_completed underway known (open_of_begins begins) _ _
  | givesUp begins news memory attempts reported failed =>
    obtain ⟨underway, -⟩ := underway_of_begins boarded popped known begins
    exact relieves_completed underway known (open_of_begins begins) _ _
  | @ends outcome stage =>
    rw [finish_eq]
    refine .ended outcome (by simp [Job.isDone, stage]) rfl (live_ended known outcome) fun task heeds => ?_
    exact (Agenda.mem_ready_wakeAll _ _ _).mpr (Or.inr heeds)
  | idle stage => exact .silent rfl fun c => rfl

end Relief

section Permits

variable {r r' : Ranker σ} {agenda : Agenda Task} {n c : Nat} {job : Job} {call call' : RankingCall}

/-- How a ranking stands with its permits. -/
structure Permitted (r : Ranker σ) (c : Nat) (call : RankingCall) : Prop where
  running : call.running = live c r.jobs
  permits : call.permits + call.running = jobLimit r.settings
  pausing : ∀ misses, call.stage = .dispatching misses →
    misses ≠ [] ∧ (.ranking c ∈ r.agenda.ready ∨ call.permits = 0)
  joining : call.stage = .joining → .ranking c ∈ r.agenda.ready ∨ 0 < call.running
  finished : ∀ results time, call.stage = .returned results time → call.cancelled = false →
    call.running = 0

theorem Permitted.congr (permitted : Permitted r c call) (settings : r'.settings = r.settings)
    (same : live c r'.jobs = live c r.jobs)
    (recalls : call.isWaiting = true → .ranking c ∈ r.agenda.ready → .ranking c ∈ r'.agenda.ready) :
    Permitted r' c call where
  running := permitted.running.trans same.symm
  permits := settings ▸ permitted.permits
  pausing := by
    intro misses stage
    obtain ⟨left, waits⟩ := permitted.pausing misses stage
    exact ⟨left, waits.imp_left (recalls (by simp [RankingCall.isWaiting, stage]))⟩
  joining := fun stage =>
    (permitted.joining stage).imp_left (recalls (by simp [RankingCall.isWaiting, stage]))
  finished := permitted.finished

theorem Permitted.delivered (permitted : Permitted r c call) (settings : r'.settings = r.settings)
    (fewer : live c r'.jobs + 1 = live c r.jobs)
    (heeded : call.isWaiting = true → .ranking c ∈ r'.agenda.ready) (outcome : Measurement) :
    Permitted r' c (delivered outcome call) := by
  have running := permitted.running
  have permits := permitted.permits
  constructor
  case running =>
    change call.running - 1 = _
    omega
  case permits =>
    change call.permits + 1 + (call.running - 1) = _
    rw [settings]
    omega
  case pausing =>
    intro misses stage
    have stage' : call.stage = .dispatching misses := stage
    exact ⟨(permitted.pausing misses stage').1,
      Or.inl (heeded (by simp [RankingCall.isWaiting, stage']))⟩
  case joining =>
    intro stage
    have stage' : call.stage = .joining := stage
    exact Or.inl (heeded (by simp [RankingCall.isWaiting, stage']))
  case finished =>
    intro results time stage going
    have nobody : call.running = 0 := permitted.finished results time stage going
    omega

theorem Permitted.calledOff (permitted : Permitted r c call) : Permitted r c call.calledOff where
  running := permitted.running
  permits := permitted.permits
  pausing := permitted.pausing
  joining := permitted.joining
  finished := fun _ _ _ going => absurd going (by simp [RankingCall.calledOff])

theorem permitted_cancel (permitted : ∀ call, r.rankings[c]? = some call → Permitted r c call)
    {m : Nat} (known' : (r.rankings.modify m RankingCall.calledOff)[c]? = some call')
    (settings : r'.settings = r.settings) (same : live c r'.jobs = live c r.jobs)
    (recalls : .ranking c ∈ r.agenda.ready → .ranking c ∈ r'.agenda.ready) : Permitted r' c call' := by
  obtain ⟨call, known, ⟨rfl, rfl⟩ | ⟨different, rfl⟩⟩ := getElem?_modified known'
  · exact ((permitted call known).congr settings same fun _ => recalls).calledOff
  · exact (permitted call' known).congr settings same fun _ => recalls

theorem permitted_jobTurn (permitted : ∀ call, r.rankings[c]? = some call → Permitted r c call)
    (boarded : Boarded r.flights r.agenda r.jobs)
    (popped : r.agenda.pop? = some (.job n, agenda)) (known : r.jobs[n]? = some job)
    (turn : JobTurn { r with agenda } n job r') (known' : r'.rankings[c]? = some call') :
    Permitted r' c call' := by
  have settings : r'.settings = r.settings := (fixed_of_jobTurn turn).1
  have recalls : .ranking c ∈ r.agenda.ready → .ranking c ∈ r'.agenda.ready :=
    ((recalls_pop popped (by simp)).trans ((reporting_of_turn boarded popped known turn).2 c)).ready
  cases relieves_of_turn boarded popped known turn with
  | silent rankings same =>
    rw [rankings] at known'
    exact (permitted call' known').congr settings (same c) fun _ => recalls
  | ended outcome notDone rankings fewer heeded =>
    have fewer := fewer c
    rw [rankings] at known'
    -- the job is one of this ranking, or the ranking's live jobs are as many as they were
    have beside (foreign : job.owner ≠ .ranking c) (before : r.rankings[c]? = some call') :
        Permitted r' c call' := by
      rw [liveOf, if_neg (fun both => foreign both.1)] at fewer
      exact (permitted call' before).congr settings fewer fun _ => recalls
    cases owner : job.owner with
    | refresh =>
      rw [owner] at known'
      exact beside (by simp [owner]) known'
    | ranking m =>
      rw [owner] at known'
      obtain ⟨call, before, ⟨rfl, rfl⟩ | ⟨different, rfl⟩⟩ := getElem?_modified known'
      · rw [liveOf_own owner notDone] at fewer
        refine (permitted call before).delivered settings fewer (fun waits => heeded _ ?_) outcome
        simp [heeding, owner, before, waits]
      · exact beside (by simpa [owner] using different) before

section Giving

variable {before : Ranker σ} {mid : RankingCall} {misses : List String}

theorem permits_of_sets (known : r.rankings[c]? = some call)
    (sets : Sets { r with agenda } call before mid misses) :
    before.rankings[c]? = some call ∧ live c before.jobs = live c r.jobs ∧
      mid.permits = call.permits ∧ mid.running = call.running := by
  obtain ⟨recruits, enlists, -, refreshes⟩ := enlists_of_sets sets
  refine ⟨by rw [enlists.rankings]; exact known, ?_, by cases sets <;> rfl, by cases sets <;> rfl⟩
  rw [enlists.jobs]
  exact (sameCrew_append fun job member => by simp [(refreshes job member).1]).1

theorem permits_kept (permitted : Permitted r c call) (known : r.rankings[c]? = some call)
    (sets : Sets { r with agenda } call before mid misses) :
    mid.running = live c before.jobs ∧ mid.permits + mid.running = jobLimit before.settings := by
  obtain ⟨-, same, permits, running⟩ := permits_of_sets known sets
  have settings : before.settings = r.settings := (settings_of_sets sets).trans rfl
  rw [same, permits, running, settings]
  exact ⟨permitted.running, permitted.permits⟩

theorem permits_given (permitted : Permitted r c call) (known : r.rankings[c]? = some call)
    (sets : Sets { r with agenda } call before mid misses)
    {ips : List String} (enough : ips.length ≤ mid.permits) :
    let after := spawnAll call.domain (.ranking c) ips before
    after.rankings = before.rankings ∧ mid.running + ips.length = live c after.jobs ∧
      mid.permits - ips.length + (mid.running + ips.length) = jobLimit after.settings := by
  have enlists := enlists_spawnAll call.domain (.ranking c) ips before
  obtain ⟨running, permits⟩ := permits_kept permitted known sets
  intro after
  refine ⟨enlists.rankings, ?_, ?_⟩
  · rw [enlists.jobs, live_spawned, running]
  · rw [enlists.settings]
    omega

/-- With its turn a ranking gives permits to jobs, no more than it has. -/
theorem permitted_rankingTurn (permitted : Permitted r c call)
    (known : r.rankings[c]? = some call) (open' : call.isOver = false)
    (turn : RankingTurn { r with agenda } c call r') (known' : r'.rankings[c]? = some call') :
    Permitted r' c call' := by
  cases turn with
  | @breaks before mid misses sets stage many =>
    cases ranking_of_set (permits_of_sets known sets).1 rfl known'
    obtain ⟨running, permits⟩ := permits_kept permitted known sets
    exact ⟨running, permits, by simp, by simp, by simp⟩
  | @pauses before mid misses sets going few =>
    have taken : (misses.take mid.permits).length = mid.permits := by
      rw [List.length_take, Nat.min_eq_left (Nat.le_of_lt few)]
    obtain ⟨rankings, running, permits⟩ :=
      permits_given permitted known sets (Nat.le_of_eq taken)
    cases ranking_of_set (permits_of_sets known sets).1 rankings known'
    rw [taken] at running permits
    refine ⟨running, permits, ?_, by simp [starting], by simp [starting]⟩
    -- there are more misses than permits, so all permits are given and some misses are left
    rintro left stage
    cases stage
    refine ⟨fun nothing => ?_, Or.inr (Nat.sub_self _)⟩
    have short := List.drop_eq_nil_iff.mp nothing
    omega
  | @joins before mid misses sets going enough busy =>
    obtain ⟨rankings, running, permits⟩ := permits_given permitted known sets enough
    cases ranking_of_set (permits_of_sets known sets).1 rankings known'
    exact ⟨running, permits, by simp [starting], fun _ => Or.inr (Nat.pos_of_ne_zero busy),
      by simp [starting]⟩
  | @returns before mid misses sets over' =>
    cases ranking_of_set (permits_of_sets known sets).1 rfl known'
    obtain ⟨running, permits⟩ := permits_kept permitted known sets
    refine ⟨running, permits, by simp, by simp, fun _ _ _ going => ?_⟩
    rcases over' with off | ⟨-, idle⟩
    · exact absurd ((sets_cancelled sets).trans off) (by simpa using going)
    · exact idle
  | idle over' => simp [open'] at over'

end Giving

theorem permitted_beside {m : Nat} {other : RankingCall}
    (permitted : ∀ call, r.rankings[c]? = some call → Permitted r c call)
    (popped : r.agenda.pop? = some (.ranking m, agenda)) (different : m ≠ c)
    (turn : RankingTurn { r with agenda } m other r') (known' : r'.rankings[c]? = some call') :
    Permitted r' c call' := by
  obtain ⟨known, beside⟩ := beside_of_rankingTurn popped different turn known'
  refine (permitted call' known).congr (fixed_of_rankingTurn turn).1 ?_ fun waits =>
    (beside.recalls (open_of_waiting waits)).ready
  rcases recruits_of_turn turn with rfl | ⟨recruits, r'', call'', news, enlisted, rfl, -⟩
  · rfl
  · have more : r''.jobs = r.jobs ++ recruits := enlisted.enlists.jobs
    simp only [setRanking, more]
    exact (sameCrew_append (enlisted.foreign different)).1

theorem permitted_of_turn (permitted : ∀ call, r.rankings[c]? = some call → Permitted r c call)
    (boarded : Boarded r.flights r.agenda r.jobs) (turn : Turn r r')
    (known' : r'.rankings[c]? = some call') : Permitted r' c call' := by
  cases turn with
  | rests empty => exact permitted call' known'
  | ofJob popped known turn => exact permitted_jobTurn permitted boarded popped known turn known'
  | @ofRanking m agenda call _ popped known turn =>
    by_cases here : m = c
    · subst here
      cases over' : call.isOver with
      | false => exact permitted_rankingTurn (permitted call known) known over' turn known'
      | true =>
        cases same_of_over over' turn
        cases known.symm.trans known'
        refine (permitted call' known).congr rfl rfl fun waits => ?_
        rw [open_of_waiting waits] at over'
        cases over'
    · exact permitted_beside permitted popped here turn known'
  | @ofCancel m agenda call popped known =>
    exact permitted_cancel permitted known' rfl rfl
      ((recalls_pop popped (by simp)).trans (recalls_wakeAll _ _ _)).ready
  | @lapses task agenda popped noJob noRanking =>
    refine (permitted call' known').congr rfl rfl fun _ => (recalls_pop popped fun same => ?_).ready
    have nobody : r.rankings[c]? = none := noRanking c same.symm
    exact absurd (nobody.symm.trans known') (by simp)

theorem live_of_nobody {jobs : List Job} (nobody : roster c jobs = []) : live c jobs = 0 := by
  refine totalOf_eq_zero fun job member => if_neg fun mine => ?_
  have silent := List.filterMap_eq_nil_iff.mp nobody job member
  simp [posted, mine.1] at silent

theorem permitted_of_aside (permitted : ∀ call, r.rankings[c]? = some call → Permitted r c call)
    (strange : r.rankings.length ≤ c → roster c r.jobs = []) (aside : Aside r r')
    (known' : r'.rankings[c]? = some call') : Permitted r' c call' := by
  cases aside with
  | plain clock memory history cache sweeping stopped =>
    exact (permitted call' known').congr rfl rfl fun _ => id
  | ticks ticked => exact (permitted call' known').congr rfl rfl fun _ => Agenda.mem_ready_tick ticked
  | rests time => exact (permitted call' known').congr rfl rfl fun _ => id
  | asks candidates domain start cancelAfter =>
    rcases ranking_of_request known' with before | ⟨rfl, rfl⟩
    · refine (permitted call' before).congr rfl rfl fun _ queued => ?_
      exact kept_by_request (motive := fun a => .ranking c ∈ a.ready) r candidates domain start cancelAfter
        (Agenda.mem_ready_wakeAfter queued _ _) fun _ _ begun => Agenda.mem_ready_wakeAfter begun _ _
    · have nobody := live_of_nobody (strange (Nat.le_refl _))
      exact ⟨nobody.symm, rfl, by simp [requestedCall], by simp [requestedCall], by simp [requestedCall]⟩
  | @cancels m call known =>
    exact permitted_cancel permitted known' rfl rfl (recalls_wakeAll _ _ _).ready

/-- What is known of a ranker and its permits after any course. -/
structure Restrained (r : Ranker σ) : Prop where
  crews : CrewsAgree r
  permitted : ∀ c call, r.rankings[c]? = some call → Permitted r c call

theorem restrained_make (settings : Settings) (base : String) (disk : Disk) (prober : Prober σ)
    (memory : σ) (clock : WallClock) : Restrained (make settings base disk prober memory clock) where
  crews := crewsAgree_make settings base disk prober memory clock
  permitted := by simp [make]

theorem Restrained.perform (restrained : Restrained r) (act : Act σ) : Restrained (r.perform act) where
  crews := restrained.crews.perform act
  permitted := by
    intro c call' known'
    have permitted := restrained.permitted c
    rcases outcome_perform r act with ⟨-, turn⟩ | aside
    · exact permitted_of_turn permitted restrained.crews.boarded turn known'
    · exact permitted_of_aside permitted (restrained.crews.mustered.strange c) aside known'

theorem Restrained.after (restrained : Restrained r) (acts : List (Act σ)) :
    Restrained (r.after acts) :=
  after_induction (fun _ act restrained => restrained.perform act) restrained acts

/-- No ranking has more jobs under way than its limit, whatever has become of it. -/
theorem Restrained.live_le (restrained : Restrained r) (c : Nat) :
    live c r.jobs ≤ jobLimit r.settings := by
  cases known : r.rankings[c]? with
  | none =>
    have nobody := restrained.crews.mustered.strange c (List.getElem?_eq_none_iff.mp known)
    rw [live_of_nobody nobody]
    exact Nat.zero_le _
  | some call =>
    have permitted := restrained.permitted c call known
    rw [← permitted.running, ← permitted.permits]
    exact Nat.le_add_left _ _

/-- A ranker with nothing left to do has no ranking left to end. -/
theorem Restrained.over_of_quiet (restrained : Restrained r) (quiet : r.Quiet)
    (known : r.rankings[c]? = some call) : call.isOver = true := by
  have idle : live c r.jobs = 0 := by
    refine totalOf_eq_zero fun job member => ?_
    obtain ⟨n, known'⟩ := List.mem_iff_getElem?.mp member
    simp [liveOf, done_of_quiet restrained.crews.boarded quiet known']
  have positive : 0 < jobLimit r.settings := Nat.lt_of_lt_of_le Nat.one_pos (Nat.le_max_right _ _)
  have permitted := restrained.permitted c call known
  have running := permitted.running
  have permits := permitted.permits
  cases stage : call.stage with
  | expected =>
    have called := ((restrained.crews.mustered.crewed c call known).expected stage).2.2
    simp [Agenda.summons, quiet.1, quiet.2] at called
  | dispatching misses =>
    obtain ⟨-, queued | none'⟩ := permitted.pausing misses stage
    · simp [quiet.1] at queued
    · omega
  | joining =>
    rcases permitted.joining stage with queued | some'
    · simp [quiet.1] at queued
    · omega
  | returned results time => simp [RankingCall.isOver, stage]
  | broken => simp [RankingCall.isOver, stage]

end Permits

end Ranker

end LatencyRank
