import Mathlib
import LatencyRank.Proofs.Ranker.Boarding

/-!
The jobs of a ranking: for which addresses it has dispatched any, and what those that are done came
to. Its own turns dispatch the next of its misses and collect nothing; a job that ends hands its
outcome over; whatever else happens, and to whomever, leaves both as they are.
-/

namespace LatencyRank

def RankingCall.toDispatch? (call : RankingCall) : Option (List String) :=
  match call.stage with
  | .dispatching misses => some misses
  | .joining => some []
  | .expected | .returned .. | .broken => none

def Job.outcome? (job : Job) : Option Measurement :=
  match job.stage with
  | .done outcome => some outcome
  | _ => none

namespace Ranker

variable {σ : Type}

section Crews

def posted (c : Nat) (job : Job) : Option String := if job.owner = .ranking c then some job.ip else none

def reported (c : Nat) (job : Job) : Option Measurement :=
  if job.owner = .ranking c then job.outcome? else none

/-- The addresses that a ranking has jobs for, in the order in which they were dispatched. -/
def roster (c : Nat) (jobs : List Job) : List String := jobs.filterMap (posted c)

def found (c : Nat) (jobs : List Job) : List Measurement := jobs.filterMap (reported c)

variable {c n : Nat} {job : Job} {jobs recruits : List Job} {outcome : Measurement}

theorem mem_roster {ip : String} :
    ip ∈ roster c jobs ↔ ∃ job ∈ jobs, job.owner = .ranking c ∧ job.ip = ip := by
  simp [roster, posted]

theorem outcome?_eq_some : job.outcome? = some outcome ↔ job.stage = .done outcome := by
  cases stage : job.stage <;> simp [Job.outcome?, stage]

theorem mem_found :
    outcome ∈ found c jobs ↔ ∃ job ∈ jobs, job.owner = .ranking c ∧ job.stage = .done outcome := by
  simp [found, reported, outcome?_eq_some]

theorem found_stage (known : jobs[n]? = some job) (open' : job.outcome? = none) {stage : JobStage}
    (open'' : (job.atStage stage).outcome? = none) (c : Nat) :
    found c (jobs.modify n (.atStage stage)) = found c jobs := by
  have silent : reported c job = none := by simp [reported, open']
  have silent' : reported c (job.atStage stage) = none := by simp [reported, open'']
  obtain ⟨front, back, shape, changed⟩ := modify_split known
  unfold found
  rw [changed, List.filterMap_append, List.filterMap_cons_none silent', shape,
    List.filterMap_append, List.filterMap_cons_none silent]

theorem found_ended (known : jobs[n]? = some job) (open' : job.outcome? = none)
    (outcome : Measurement) (c : Nat) :
    (found c (jobs.modify n (.atStage (.done outcome)))).Perm
      (found c jobs ++ if job.owner = .ranking c then [outcome] else []) := by
  have silent : reported c job = none := by simp [reported, open']
  have speaks : reported c (job.atStage (.done outcome)) =
      if job.owner = .ranking c then some outcome else none := rfl
  obtain ⟨front, back, shape, changed⟩ := modify_split known
  unfold found
  rw [changed, shape, List.filterMap_append, List.filterMap_append, List.filterMap_cons_none silent]
  by_cases own : job.owner = .ranking c
  · rw [if_pos own] at speaks ⊢
    rw [List.filterMap_cons_some speaks]
    exact List.perm_middle.trans (List.perm_append_singleton _ _).symm
  · rw [if_neg own] at speaks ⊢
    rw [List.filterMap_cons_none speaks, List.append_nil]

theorem found_told {waiting : List Nat}
    (waits : ∀ m ∈ waiting, ∀ job, jobs[m]? = some job → job.stage = .waiting) (outcome : Measurement)
    (c : Nat) : found c (toldAll outcome waiting jobs) = found c jobs := by
  refine filterMap_of_map (List.ext_getElem? fun m => ?_)
  rw [List.getElem?_map, List.getElem?_map, getElem?_toldAll]
  split
  · rename_i waited
    cases known : jobs[m]? with
    | none => rfl
    | some job =>
      have stage := waits m waited job known
      simp [reported, Job.outcome?, Job.atStage, stage]
  · rfl

theorem roster_append (c : Nat) (jobs recruits : List Job) :
    roster c (jobs ++ recruits) = roster c jobs ++ roster c recruits := List.filterMap_append

theorem found_append (fresh : ∀ job ∈ recruits, job.stage = .queued) (c : Nat) :
    found c (jobs ++ recruits) = found c jobs := by
  have nothing : found c recruits = [] := List.filterMap_eq_nil_iff.mpr fun job member => by
    simp [reported, Job.outcome?, fresh job member]
  unfold found at nothing ⊢
  rw [List.filterMap_append, nothing, List.append_nil]

theorem roster_of_foreign (foreign : ∀ job ∈ recruits, job.owner ≠ .ranking c) : roster c recruits = [] :=
  List.filterMap_eq_nil_iff.mpr fun job member => if_neg (foreign job member)

theorem roster_spawned (c : Nat) (domain : String) (ips : List String) :
    roster c (ips.map fun ip => ({ ip, domain, owner := .ranking c } : Job)) = ips := by
  unfold roster
  rw [List.filterMap_map]
  exact (List.filterMap_congr fun ip _ => if_pos rfl).trans List.filterMap_some

end Crews

section Turns

variable {r r' : Ranker σ} {agenda : Agenda Task} {n c : Nat} {job : Job}

/-- Whoever is called from one moment on is called still. -/
structure Recalls (a b : Agenda Task) (task : Task) : Prop where
  ready : task ∈ a.ready → task ∈ b.ready
  summons : task ∈ a.summons → task ∈ b.summons

theorem Recalls.refl (a : Agenda Task) (task : Task) : Recalls a a task := ⟨id, id⟩

theorem Recalls.trans {a b d : Agenda Task} {task : Task} (early : Recalls a b task)
    (late : Recalls b d task) : Recalls a d task :=
  ⟨late.ready ∘ early.ready, late.summons ∘ early.summons⟩

theorem recalls_wakeAll (a : Agenda Task) (tasks : List Task) (task : Task) :
    Recalls a (a.wakeAll tasks) task :=
  ⟨fun queued => (Agenda.mem_ready_wakeAll a tasks task).mpr (Or.inl queued),
    fun summoned => Agenda.mem_summons_wakeAll summoned tasks⟩

theorem recalls_wakeAfter (a : Agenda Task) (delay : Nat) (later task : Task) :
    Recalls a (a.wakeAfter delay later) task :=
  ⟨fun queued => Agenda.mem_ready_wakeAfter queued delay later,
    fun summoned => Agenda.mem_summons_wakeAfter summoned delay later⟩

theorem recalls_pop {a b : Agenda Task} {task other : Task} (popped : a.pop? = some (task, b))
    (different : other ≠ task) : Recalls a b other := by
  obtain ⟨shape, sleeping, -⟩ := Agenda.pop?_eq_some popped
  constructor
  · intro queued
    rw [shape, List.mem_cons] at queued
    exact queued.resolve_left different
  · intro summoned
    rw [Agenda.summons, shape, List.cons_append, List.mem_cons] at summoned
    rw [Agenda.summons, sleeping]
    exact summoned.resolve_left different

/-- What a turn of a job is to the rankings: nothing, or the job ends for its owner. -/
inductive Reporting (r : Ranker σ) (job : Job) (r' : Ranker σ) : Prop
  | silent (rankings : r'.rankings = r.rankings) (same : ∀ c, found c r'.jobs = found c r.jobs)
  | ended (outcome : Measurement)
      (rankings : r'.rankings = rankingsAfter r.rankings outcome job.owner)
      (more : ∀ c, (found c r'.jobs).Perm
        (found c r.jobs ++ if job.owner = .ranking c then [outcome] else []))

theorem reporting_completed {flights : Flights} {m : Measurement}
    (underway : Underway flights agenda r.jobs n job) (known : r.jobs[n]? = some job)
    (open' : job.outcome? = none) (memory : σ) (journal : List RankerEvent) :
    Reporting r job (completed { r with agenda, flights, memory, journal } n job m) := by
  refine .ended m rfl fun c => ?_
  have waits : ∀ k ∈ (flights.land job.key).2, ∀ other, r.jobs[k]? = some other →
      other.stage = .waiting := by
    intro k waited other known'
    obtain ⟨-, other', known'', -, stage⟩ := waited_of_underway underway waited
    rw [known'] at known''
    cases known''
    exact stage
  have ended := found_ended (still_of_underway underway known m) open' m c
  rwa [found_told waits] at ended

/-- A job's turn reports at most its own end, and calls off nobody. -/
theorem reporting_of_turn (boarded : Boarded r.flights r.agenda r.jobs)
    (popped : r.agenda.pop? = some (.job n, agenda)) (known : r.jobs[n]? = some job)
    (turn : JobTurn { r with agenda } n job r') :
    Reporting r job r' ∧ ∀ c, Recalls agenda r'.agenda (.ranking c) := by
  have open' {flights : Flights} {total : Nat} {before : Progress} {pending : List (Option Sample)}
      (begins : Begins { r with agenda } n job flights total before pending) : job.outcome? = none := by
    cases begins with
    | first stage runs => simp [Job.outcome?, stage]
    | again stage => simp [Job.outcome?, stage]
    | next stage => simp [Job.outcome?, stage]
  cases turn with
  | waits stage behind =>
    refine ⟨.silent rfl fun c => ?_, fun c => .refl _ _⟩
    exact found_stage known (by simp [Job.outcome?, stage]) rfl c
  | sleeps begins news memory sample delay attempts reported took fewer positive =>
    exact ⟨.silent rfl fun c => found_stage known (open' begins) rfl c,
      fun c => recalls_wakeAfter _ _ _ _⟩
  | concludes begins news memory attempts reported took all =>
    obtain ⟨underway, -⟩ := underway_of_begins boarded popped known begins
    exact ⟨reporting_completed underway known (open' begins) _ _,
      fun c => (recalls_wakeAll _ _ _).trans (recalls_wakeAll _ _ _)⟩
  | givesUp begins news memory attempts reported failed =>
    obtain ⟨underway, -⟩ := underway_of_begins boarded popped known begins
    exact ⟨reporting_completed underway known (open' begins) _ _,
      fun c => (recalls_wakeAll _ _ _).trans (recalls_wakeAll _ _ _)⟩
  | @ends outcome stage =>
    rw [finish_eq]
    refine ⟨.ended outcome rfl fun c => ?_, fun c => recalls_wakeAll _ _ _⟩
    exact found_ended known (by simp [Job.outcome?, stage]) outcome c
  | idle stage => exact ⟨.silent rfl fun c => rfl, fun c => .refl _ _⟩

theorem mem_roster_perform {ip : String} (member : ip ∈ roster c r.jobs) (act : Act σ) :
    ip ∈ roster c (r.perform act).jobs := by
  obtain ⟨job, member', own, rfl⟩ := mem_roster.mp member
  obtain ⟨n, known⟩ := List.mem_iff_getElem?.mp member'
  obtain ⟨stage, known'⟩ := job_perform r act known
  exact mem_roster.mpr ⟨_, List.mem_of_getElem? known', own, rfl⟩

theorem mem_roster_after {ip : String} (member : ip ∈ roster c r.jobs) (acts : List (Act σ)) :
    ip ∈ roster c (r.after acts).jobs :=
  after_induction (motive := fun r' => ip ∈ roster c r'.jobs)
    (fun _ act member => mem_roster_perform member act) member acts

end Turns

section Passages

variable {r r' : Ranker σ} {agenda : Agenda Task} {n c : Nat} {job : Job} {call call' : RankingCall}

/-- Something happens beside a ranking: at most one of its jobs ends, or it is called off. -/
structure Beside (r r' : Ranker σ) (c : Nat) (call call' : RankingCall) : Prop where
  stage : call'.stage = call.stage
  hits : call'.hits = call.hits
  candidates : call'.candidates = call.candidates
  posts : roster c r'.jobs = roster c r.jobs
  fresh : call.fresh.Perm (found c r.jobs) → call'.fresh.Perm (found c r'.jobs)
  permits : roster c r.jobs = [] → call'.permits = call.permits
  cancelled : call.cancelled = true → call'.cancelled = true
  recalls : call.isOver = false → Recalls r.agenda r'.agenda (.ranking c)
  called : call.cancelled = false → call'.cancelled = true → call.isWaiting = true →
    .ranking c ∈ r'.agenda.ready

theorem Beside.same (posts : roster c r'.jobs = roster c r.jobs)
    (reports : found c r'.jobs = found c r.jobs)
    (recalls : call.isOver = false → Recalls r.agenda r'.agenda (.ranking c)) :
    Beside r r' c call call where
  stage := rfl
  hits := rfl
  candidates := rfl
  posts := posts
  fresh := fun perm => reports.symm ▸ perm
  permits := fun _ => rfl
  cancelled := id
  recalls := recalls
  called := fun going off _ => by simp [going] at off

theorem roster_of_owner (known : r.jobs[n]? = some job) (own : job.owner = .ranking c) :
    roster c r.jobs ≠ [] := by
  intro nobody
  have silent := List.filterMap_eq_nil_iff.mp nobody job (List.mem_of_getElem? known)
  simp [posted, own] at silent

theorem beside_of_jobTurn (boarded : Boarded r.flights r.agenda r.jobs)
    (popped : r.agenda.pop? = some (.job n, agenda)) (known : r.jobs[n]? = some job)
    (turn : JobTurn { r with agenda } n job r') (known' : r'.rankings[c]? = some call') :
    ∃ call, r.rankings[c]? = some call ∧ Beside r r' c call call' := by
  obtain ⟨reporting, recalls⟩ := reporting_of_turn boarded popped known turn
  have recalls' : Recalls r.agenda r'.agenda (.ranking c) :=
    (recalls_pop popped (by simp)).trans (recalls c)
  have still (stage : JobStage) (job : Job) : posted c (job.atStage stage) = posted c job := rfl
  have views := map_of_jobTurn still turn
  have posts : roster c r'.jobs = roster c r.jobs := filterMap_of_map views
  cases reporting with
  | silent rankings same =>
    rw [rankings] at known'
    exact ⟨call', known', .same posts (same c) fun _ => recalls'⟩
  | ended outcome rankings more =>
    rw [rankings] at known'
    have more := more c
    cases owner : job.owner with
    | refresh =>
      rw [owner, if_neg (by simp), List.append_nil] at more
      rw [owner] at known'
      refine ⟨call', known', rfl, rfl, rfl, posts, fun perm => perm.trans more.symm, fun _ => rfl, id,
        fun _ => recalls', fun going off _ => by simp [going] at off⟩
    | ranking m =>
      rw [owner] at known' more
      obtain ⟨call, before, ⟨rfl, rfl⟩ | ⟨different, rfl⟩⟩ := getElem?_modified known'
      · rw [if_pos rfl] at more
        refine ⟨call, before, rfl, rfl, rfl, posts, ?_, ?_, id, fun _ => recalls', ?_⟩
        · exact fun perm => (perm.append_right _).trans more.symm
        · exact fun nobody => absurd nobody (roster_of_owner known owner)
        · exact fun going off _ => by simp [delivered, going] at off
      · rw [if_neg (by simpa using different), List.append_nil] at more
        refine ⟨_, before, rfl, rfl, rfl, posts, fun perm => perm.trans more.symm, fun _ => rfl, id,
          fun _ => recalls', fun going off _ => by simp [going] at off⟩

theorem beside_of_rankingTurn {m : Nat} {other : RankingCall}
    (popped : r.agenda.pop? = some (.ranking m, agenda)) (different : m ≠ c)
    (turn : RankingTurn { r with agenda } m other r') (known' : r'.rankings[c]? = some call') :
    r.rankings[c]? = some call' ∧ Beside r r' c call' call' := by
  have recalls : Recalls r.agenda agenda (.ranking c) :=
    recalls_pop popped fun same => different (Task.ranking.inj same).symm
  rcases recruits_of_turn turn with rfl | ⟨recruits, r'', call'', news, enlisted, rfl, -⟩
  · exact ⟨known', .same rfl rfl fun _ => recalls⟩
  · have enlists := enlisted.enlists
    have calls : r''.rankings = r.rankings := enlists.rankings
    have jobs : r''.jobs = r.jobs ++ recruits := enlists.jobs
    have tasks : r''.agenda = agenda.wakeAll (callsOf r.jobs recruits) := enlists.agenda
    simp only [setRanking, calls, List.getElem?_set_ne different] at known'
    refine ⟨known', .same ?_ ?_ fun _ => ?_⟩
    · simp only [setRanking, jobs]
      rw [roster_append, roster_of_foreign (enlisted.foreign different), List.append_nil]
    · simp only [setRanking, jobs]
      exact found_append enlists.fresh c
    · simp only [setRanking, tasks]
      exact recalls.trans (recalls_wakeAll _ _ _)

theorem beside_of_cancel {m : Nat} {other : RankingCall} (known : r.rankings[m]? = some other)
    (recalls : Recalls r.agenda agenda (.ranking c))
    (known' : (afterCancel { r with agenda } m other).rankings[c]? = some call') :
    ∃ call, r.rankings[c]? = some call ∧
      Beside r (afterCancel { r with agenda } m other) c call call' := by
  have recalls' : Recalls r.agenda (agenda.wakeAll (heedingCancel other m)) (.ranking c) :=
    recalls.trans (recalls_wakeAll _ _ _)
  obtain ⟨call, before, ⟨rfl, rfl⟩ | ⟨different, rfl⟩⟩ := getElem?_modified known'
  · refine ⟨call, before, rfl, rfl, rfl, rfl, id, fun _ => rfl, fun _ => rfl, fun _ => recalls', ?_⟩
    intro going _ waits
    have mine : call = other := Option.some.inj (before.symm.trans known)
    refine (Agenda.mem_ready_wakeAll _ _ _).mpr (Or.inr ?_)
    simp [heedingCancel, ← mine, waits, going]
  · exact ⟨_, before, .same rfl rfl fun _ => recalls'⟩

/-- All that can happen to a ranking with an act. -/
inductive Passage (r : Ranker σ) (act : Act σ) (c : Nat) (call' : RankingCall) : Prop
  | beside {call : RankingCall} (known : r.rankings[c]? = some call)
      (beside : Beside r (r.perform act) c call call')
  | enters (new : c = r.rankings.length) {candidates : List String} {domain : String}
      {cancelAfter : Option Nat} (shape : call' = requestedCall r.settings candidates domain cancelAfter)
      (jobs : (r.perform act).jobs = r.jobs) (called : .ranking c ∈ (r.perform act).agenda.summons)
  | turns {agenda : Agenda Task} {call : RankingCall} (isTurn : act = .turn)
      (popped : r.agenda.pop? = some (.ranking c, agenda)) (known : r.rankings[c]? = some call)
      (open' : call.isOver = false) (turn : RankingTurn { r with agenda } c call (r.perform act))

theorem passage_of_turn (boarded : Boarded r.flights r.agenda r.jobs) {act : Act σ} (isTurn : act = .turn)
    (turn : Turn r (r.perform act)) (known' : (r.perform act).rankings[c]? = some call') :
    Passage r act c call' := by
  generalize after : r.perform act = r' at known' turn
  cases turn with
  | rests empty =>
    exact .beside known' (after.symm ▸ .same rfl rfl fun _ => .refl _ _)
  | ofJob popped known turn =>
    obtain ⟨call, before, beside⟩ := beside_of_jobTurn boarded popped known turn known'
    exact .beside before (after.symm ▸ beside)
  | @ofRanking m agenda call _ popped known turn =>
    by_cases here : m = c
    · subst here
      cases over' : call.isOver with
      | false => exact .turns isTurn popped known over' (after.symm ▸ turn)
      | true =>
        have same := same_of_over over' turn
        subst same
        have mine : call' = call := Option.some.inj (known'.symm.trans known)
        refine .beside known (after.symm ▸ ?_)
        rw [mine]
        exact .same rfl rfl fun open' => by simp [over'] at open'
    · obtain ⟨before, beside⟩ := beside_of_rankingTurn popped here turn known'
      exact .beside before (after.symm ▸ beside)
  | ofCancel popped known =>
    obtain ⟨call, before, beside⟩ := beside_of_cancel known (recalls_pop popped (by simp)) known'
    exact .beside before (after.symm ▸ beside)
  | @lapses task agenda popped noJob noRanking =>
    have different : Task.ranking c ≠ task := by
      intro same
      have nobody : r.rankings[c]? = none := noRanking c same.symm
      rw [nobody] at known'
      cases known'
    exact .beside known' (after.symm ▸ .same rfl rfl fun _ => recalls_pop popped different)

theorem passage_of_aside {act : Act σ} (aside : Aside r (r.perform act))
    (known' : (r.perform act).rankings[c]? = some call') : Passage r act c call' := by
  generalize after : r.perform act = r' at known' aside
  cases aside with
  | plain clock memory history cache sweeping stopped =>
    exact .beside known' (after.symm ▸ .same rfl rfl fun _ => .refl _ _)
  | ticks ticked =>
    refine .beside known' (after.symm ▸ .same rfl rfl fun _ => ⟨?_, ?_⟩)
    · exact Agenda.mem_ready_tick ticked
    · exact Agenda.mem_summons_tick ticked
  | rests time => exact .beside known' (after.symm ▸ .same rfl rfl fun _ => ⟨id, id⟩)
  | asks candidates domain start cancelAfter =>
    rcases ranking_of_request known' with before | ⟨rfl, rfl⟩
    · refine .beside before (after.symm ▸ .same rfl rfl fun _ => ?_)
      exact kept_by_request (motive := fun a => Recalls r.agenda a (.ranking c)) r candidates domain start
        cancelAfter (recalls_wakeAfter _ _ _ _) fun a delay early =>
          early.trans (recalls_wakeAfter a delay _ _)
    · refine .enters rfl rfl (after.symm ▸ rfl) (after.symm ▸ ?_)
      exact kept_by_request (motive := fun a => .ranking r.rankings.length ∈ a.summons) r candidates
        domain start cancelAfter (Agenda.mem_summons_wakeAfter_self _ _ _)
        fun _ _ begun => Agenda.mem_summons_wakeAfter begun _ _
  | cancels known =>
    obtain ⟨call, before, beside⟩ := beside_of_cancel known (.refl _ _) known'
    exact .beside before (after.symm ▸ beside)

theorem passage_perform (boarded : Boarded r.flights r.agenda r.jobs) (act : Act σ)
    (known' : (r.perform act).rankings[c]? = some call') : Passage r act c call' := by
  rcases outcome_perform r act with ⟨isTurn, turn⟩ | aside
  · exact passage_of_turn boarded isTurn turn known'
  · exact passage_of_aside aside known'

end Passages

section Turning

def hitsOf (r : Ranker σ) (candidates : List String) : List Measurement :=
  (chosen r.settings candidates).filterMap r.served

def missesOf (r : Ranker σ) (candidates : List String) : List String :=
  (chosen r.settings candidates).filter fun ip => (r.served ip).isNone

variable {r r' before : Ranker σ} {agenda : Agenda Task} {c : Nat} {call call' mid : RankingCall}
  {misses : List String}

/-- A ranking's own turn, with these misses left: the first of them become jobs, none if it is over by
then. -/
structure Proceeds (r : Ranker σ) (c : Nat) (call mid : RankingCall) (misses : List String)
    (r' : Ranker σ) (call' : RankingCall) (jobs : Nat) : Prop where
  hits : call'.hits = mid.hits
  fresh : call'.fresh = call.fresh
  cancelled : call'.cancelled = call.cancelled
  candidates : call'.candidates = call.candidates
  reports : found c r'.jobs = found c r.jobs
  posts : roster c r'.jobs = roster c r.jobs ++ misses.take jobs
  stage : match call'.stage with
    | .expected => False
    | .dispatching left => call.cancelled = false ∧ left = misses.drop jobs
    | .joining => call.cancelled = false ∧ misses.drop jobs = []
    | .returned results time => jobs = 0 ∧ time = r'.agenda.now ∧
        results = Ranking.rank (mid.hits ++ call.fresh) r'.history r'.wall
    | .broken => jobs = 0 ∧ call.stage = .expected ∧ permitLimit < call.permits

theorem Proceeds.ends {jobs : Nat} (proceeds : Proceeds r c call mid misses r' call' jobs)
    (off : call.cancelled = true) :
    jobs = 0 ∧ ((∃ results, call'.stage = .returned results r'.agenda.now) ∨ call'.stage = .broken) := by
  have stage := proceeds.stage
  split at stage
  · exact stage.elim
  · rw [off] at stage
    cases stage.1
  · rw [off] at stage
    cases stage.1
  · rename_i results time shape
    exact ⟨stage.1, Or.inl ⟨results, stage.2.1 ▸ shape⟩⟩
  · rename_i shape
    exact ⟨stage.1, Or.inr shape⟩

theorem sets_fresh (sets : Sets r call before mid misses) : mid.fresh = call.fresh := by
  cases sets <;> rfl

theorem crew_of_sets (sets : Sets r call before mid misses) :
    roster c before.jobs = roster c r.jobs ∧ found c before.jobs = found c r.jobs := by
  obtain ⟨recruits, enlists, -, refreshes⟩ := enlists_of_sets sets
  have foreign : ∀ job ∈ recruits, job.owner ≠ .ranking c := fun job member => by
    simp [(refreshes job member).1]
  rw [enlists.jobs, roster_append, found_append enlists.fresh, roster_of_foreign foreign,
    List.append_nil]
  exact ⟨rfl, rfl⟩

theorem crew_spawnAll (domain : String) (ips : List String) :
    roster c (spawnAll domain (.ranking c) ips r).jobs = roster c r.jobs ++ ips ∧
      found c (spawnAll domain (.ranking c) ips r).jobs = found c r.jobs := by
  have enlists := enlists_spawnAll domain (.ranking c) ips r
  rw [enlists.jobs, roster_append, roster_spawned, found_append enlists.fresh]
  exact ⟨rfl, rfl⟩

theorem proceeds_of_turn (known : r.rankings[c]? = some call) (open' : call.isOver = false)
    (turn : RankingTurn r c call r') (known' : r'.rankings[c]? = some call') :
    ∃ before mid misses jobs, Sets r call before mid misses ∧
      Proceeds r c call mid misses r' call' jobs := by
  cases turn with
  | @breaks before mid misses sets stage many =>
    obtain ⟨posts, reports⟩ := crew_of_sets (c := c) sets
    have same := ranking_of_set known (rankings_of_sets sets) known'
    subst same
    refine ⟨before, mid, misses, 0, sets, rfl, (sets_fresh sets :), (sets_cancelled sets :),
      (sets_candidates sets :), reports, ?_, rfl, stage, many⟩
    rw [List.take_zero, List.append_nil]
    exact posts
  | @pauses before mid misses sets going few =>
    obtain ⟨posts, reports⟩ := crew_of_sets (c := c) sets
    obtain ⟨posts', reports'⟩ := crew_spawnAll (r := before) (c := c) call.domain
      (misses.take mid.permits)
    have enlists := enlists_spawnAll call.domain (.ranking c) (misses.take mid.permits) before
    have same := ranking_of_set known (enlists.rankings.trans (rankings_of_sets sets)) known'
    subst same
    exact ⟨before, mid, misses, mid.permits, sets, rfl, (sets_fresh sets :), (sets_cancelled sets :),
      (sets_candidates sets :), reports'.trans reports, posts'.trans (by rw [posts]), going, rfl⟩
  | @joins before mid misses sets going enough busy =>
    obtain ⟨posts, reports⟩ := crew_of_sets (c := c) sets
    obtain ⟨posts', reports'⟩ := crew_spawnAll (r := before) (c := c) call.domain misses
    have enlists := enlists_spawnAll call.domain (.ranking c) misses before
    have same := ranking_of_set known (enlists.rankings.trans (rankings_of_sets sets)) known'
    subst same
    exact ⟨before, mid, misses, misses.length, sets, rfl, (sets_fresh sets :), (sets_cancelled sets :),
      (sets_candidates sets :), reports'.trans reports, posts'.trans (by rw [posts, List.take_length]), going,
      List.drop_length⟩
  | @returns before mid misses sets over' =>
    obtain ⟨posts, reports⟩ := crew_of_sets (c := c) sets
    have same := ranking_of_set known (rankings_of_sets sets) known'
    subst same
    refine ⟨before, mid, misses, 0, sets, rfl, (sets_fresh sets :), (sets_cancelled sets :),
      (sets_candidates sets :), reports, ?_, rfl, rfl, ?_⟩
    · rw [List.take_zero, List.append_nil]
      exact posts
    · rw [← sets_fresh sets]
      rfl
  | idle over' => simp [open'] at over'

end Turning

end Ranker

end LatencyRank
