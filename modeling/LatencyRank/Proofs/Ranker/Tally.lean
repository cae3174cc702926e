import Mathlib
import LatencyRank.Proofs.Ranker.Honesty

/-!
The accounts of a ranking. What the cache answered, what its jobs found, the jobs that it still has
and the candidates that wait for a permit make up the candidates that were chosen, each as often as
it occurs; and its jobs and the permits left make up its limit. Every act keeps that, whatever other
rankings and refreshes do beside it.
-/

namespace LatencyRank

namespace Ranker

variable {σ : Type}

section Counts

/-- One for a job of a ranking that is not done. -/
def liveOf (c : Nat) (job : Job) : Nat := if job.owner = .ranking c ∧ job.isDone = false then 1 else 0

def crewOf (c : Nat) (ip : String) (job : Job) : Nat := if job.ip = ip then liveOf c job else 0

def live (c : Nat) (jobs : List Job) : Nat := totalOf (liveOf c) jobs

def crew (c : Nat) (ip : String) (jobs : List Job) : Nat := totalOf (crewOf c ip) jobs

theorem crew_le_live (c : Nat) (ip : String) (jobs : List Job) : crew c ip jobs ≤ live c jobs := by
  unfold crew live
  induction jobs with
  | nil => exact Nat.le_refl _
  | cons job rest ih =>
      have first : crewOf c ip job ≤ liveOf c job := by
        unfold crewOf
        split
        · exact Nat.le_refl _
        · exact Nat.zero_le _
      exact Nat.add_le_add first ih

/-- Both counts are the same for two lists of jobs. -/
def SameCrew (c : Nat) (jobs jobs' : List Job) : Prop :=
  live c jobs' = live c jobs ∧ ∀ ip, crew c ip jobs' = crew c ip jobs

theorem SameCrew.refl (c : Nat) (jobs : List Job) : SameCrew c jobs jobs := ⟨rfl, fun _ => rfl⟩

variable {c n : Nat} {job : Job} {jobs : List Job}

theorem liveOf_atStage (stage : JobStage) (same : (job.atStage stage).isDone = job.isDone) :
    liveOf c (job.atStage stage) = liveOf c job := by
  unfold liveOf
  rw [same]
  rfl

theorem crewOf_atStage (stage : JobStage) (same : (job.atStage stage).isDone = job.isDone)
    (ip : String) : crewOf c ip (job.atStage stage) = crewOf c ip job := by
  unfold crewOf
  rw [liveOf_atStage stage same]
  rfl

theorem sameCrew_stage (known : jobs[n]? = some job) (stage : JobStage)
    (same : (job.atStage stage).isDone = job.isDone) (c : Nat) :
    SameCrew c jobs (jobs.modify n (.atStage stage)) := by
  constructor
  · have total := totalOf_modify (liveOf c) known (.atStage stage)
    rw [liveOf_atStage stage same] at total
    exact Nat.add_right_cancel total
  · intro ip
    have total := totalOf_modify (crewOf c ip) known (.atStage stage)
    rw [crewOf_atStage stage same] at total
    exact Nat.add_right_cancel total

theorem sameCrew_toldAll {outcome : Measurement} {waiting : List Nat}
    (notDone : ∀ m ∈ waiting, ∀ job, jobs[m]? = some job → job.isDone = false) (c : Nat) :
    SameCrew c jobs (toldAll outcome waiting jobs) := by
  constructor
  · apply totalOf_modifyAll_of_same (Job.atStage (.told outcome)) (fun _ => rfl)
    intro m member job known
    exact liveOf_atStage (.told outcome) (notDone m member job known).symm
  · intro ip
    apply totalOf_modifyAll_of_same (Job.atStage (.told outcome)) (fun _ => rfl)
    intro m member job known
    exact crewOf_atStage (.told outcome) (notDone m member job known).symm ip

theorem sameCrew_append {recruits : List Job} (foreign : ∀ job ∈ recruits, job.owner ≠ .ranking c) :
    SameCrew c jobs (jobs ++ recruits) := by
  have idle : ∀ job ∈ recruits, liveOf c job = 0 := by
    intro job member
    unfold liveOf
    rw [if_neg (fun both => foreign job member both.1)]
  constructor
  · rw [live, totalOf_append, totalOf_eq_zero idle, Nat.add_zero]
    rfl
  · intro ip
    have idle' : totalOf (crewOf c ip) recruits = 0 := by
      refine totalOf_eq_zero fun job member => ?_
      unfold crewOf
      rw [idle job member, ite_self]
    rw [crew, totalOf_append, idle', Nat.add_zero]
    rfl

theorem live_spawned (c : Nat) (domain : String) (ips : List String) (jobs : List Job) :
    live c (jobs ++ ips.map fun ip => { ip, domain, owner := .ranking c }) = live c jobs + ips.length := by
  rw [live, totalOf_append]
  congr 1
  induction ips with
  | nil => rfl
  | cons ip rest ih =>
      rw [List.map_cons, totalOf, ih, List.length_cons, Nat.add_comm]
      simp [liveOf, Job.isDone]

theorem crew_spawned (c : Nat) (domain : String) (ips : List String) (jobs : List Job) (ip : String) :
    crew c ip (jobs ++ ips.map fun ip => { ip, domain, owner := .ranking c }) =
      crew c ip jobs + ips.count ip := by
  rw [crew, totalOf_append]
  congr 1
  induction ips with
  | nil => rfl
  | cons first rest ih =>
      rw [List.map_cons, totalOf, ih, List.count_cons, Nat.add_comm]
      simp [crewOf, liveOf, Job.isDone]

theorem live_ended (known : jobs[n]? = some job) (outcome : Measurement) (c : Nat) :
    live c (jobs.modify n (.atStage (.done outcome))) + liveOf c job = live c jobs := by
  have total := totalOf_modify (liveOf c) known (.atStage (.done outcome))
  have idle : liveOf c (job.atStage (.done outcome)) = 0 := by simp [liveOf, Job.atStage, Job.isDone]
  rw [idle, Nat.add_zero] at total
  exact total

theorem crew_ended (known : jobs[n]? = some job) (outcome : Measurement) (c : Nat) (ip : String) :
    crew c ip (jobs.modify n (.atStage (.done outcome))) + crewOf c ip job = crew c ip jobs := by
  have total := totalOf_modify (crewOf c ip) known (.atStage (.done outcome))
  have idle : crewOf c ip (job.atStage (.done outcome)) = 0 := by
    simp [crewOf, liveOf, Job.atStage, Job.isDone]
  rw [idle, Nat.add_zero] at total
  exact total

theorem sameCrew_ended (known : jobs[n]? = some job) (foreign : job.owner ≠ .ranking c)
    (outcome : Measurement) : SameCrew c jobs (jobs.modify n (.atStage (.done outcome))) := by
  have idle : liveOf c job = 0 := if_neg fun both => foreign both.1
  constructor
  · have total := live_ended known outcome c
    rwa [idle, Nat.add_zero] at total
  · intro ip
    have total := crew_ended known outcome c ip
    rwa [crewOf, idle, ite_self, Nat.add_zero] at total

theorem owner_staged (stage : JobStage) {other : Job} (member : other ∈ jobs.modify n (.atStage stage)) :
    ∃ old ∈ jobs, other.owner = old.owner := by
  obtain ⟨old, member', rfl | rfl⟩ := mem_modify member
  · exact ⟨_, member', rfl⟩
  · exact ⟨old, member', rfl⟩

theorem owner_told {outcome : Measurement} {waiting : List Nat} {other : Job}
    (member : other ∈ toldAll outcome waiting jobs) : ∃ old ∈ jobs, other.owner = old.owner := by
  obtain ⟨old, member', rfl | rfl⟩ := mem_toldAll member
  · exact ⟨_, member', rfl⟩
  · exact ⟨old, member', rfl⟩

theorem liveOf_own (own : job.owner = .ranking c) (notDone : job.isDone = false) : liveOf c job = 1 := by
  unfold liveOf
  rw [if_pos ⟨own, notDone⟩]

end Counts

section Accounts

def jobLimit (s : Settings) : Nat := max s.concurrency 1

structure Balanced (s : Settings) (jobs : List Job) (c : Nat) (call : RankingCall)
    (misses : List String) : Prop where
  running : call.running = live c jobs
  permits : call.permits + call.running = jobLimit s
  covers : ∀ ip, ((call.hits ++ call.fresh).map Measurement.ip).count ip + crew c ip jobs +
    misses.count ip = (chosen s call.candidates).count ip

/-- How a ranking stands with its jobs and on the agenda, by its stage. -/
def Seated (s : Settings) (a : Agenda Task) (jobs : List Job) (c : Nat) (call : RankingCall) : Prop :=
  match call.stage with
  | .expected =>
      call.hits = [] ∧ Balanced s jobs c call (chosen s call.candidates) ∧ live c jobs = 0 ∧
        .ranking c ∈ a.summons
  | .dispatching misses =>
      misses ≠ [] ∧ Balanced s jobs c call misses ∧
        (.ranking c ∈ a.ready ∨ (call.cancelled = false ∧ call.permits = 0))
  | .joining =>
      Balanced s jobs c call [] ∧ (.ranking c ∈ a.ready ∨ (call.cancelled = false ∧ 0 < call.running))
  | .returned .. => True
  | .broken => permitLimit < jobLimit s

/-- The accounts of all rankings, but for some. -/
structure TalliedBut (except : Nat → Prop) (s : Settings) (a : Agenda Task) (jobs : List Job)
    (rankings : List RankingCall) : Prop where
  seated : ∀ c call, ¬except c → rankings[c]? = some call → Seated s a jobs c call
  owned : ∀ job ∈ jobs, ∀ c, job.owner = .ranking c → c < rankings.length

def Tallied (s : Settings) (a : Agenda Task) (jobs : List Job) (rankings : List RankingCall) : Prop :=
  TalliedBut (fun _ => False) s a jobs rankings

variable {s : Settings} {a b : Agenda Task} {jobs jobs' : List Job} {c : Nat} {call : RankingCall}
  {misses : List String} {rankings : List RankingCall} {except : Nat → Prop}

theorem balanced_congr (balanced : Balanced s jobs c call misses) (same : SameCrew c jobs jobs') :
    Balanced s jobs' c call misses where
  running := balanced.running.trans same.1.symm
  permits := balanced.permits
  covers := fun ip => by rw [same.2 ip]; exact balanced.covers ip

theorem seated_congr (seated : Seated s a jobs c call) (same : SameCrew c jobs jobs')
    (queued : .ranking c ∈ a.ready → .ranking c ∈ b.ready)
    (summoned : .ranking c ∈ a.summons → .ranking c ∈ b.summons) : Seated s b jobs' c call := by
  unfold Seated at seated ⊢
  split at seated
  · obtain ⟨noHits, balanced, idle, expected⟩ := seated
    exact ⟨noHits, balanced_congr balanced same, same.1.trans idle, summoned expected⟩
  · obtain ⟨some', balanced, waits⟩ := seated
    exact ⟨some', balanced_congr balanced same, waits.imp_left queued⟩
  · obtain ⟨balanced, waits⟩ := seated
    exact ⟨balanced_congr balanced same, waits.imp_left queued⟩
  · exact seated
  · exact seated

theorem seated_of_over (seated : Seated s a jobs c call) (ended : call.isOver = true) :
    Seated s b jobs' c call := by
  unfold Seated at seated ⊢
  cases stage : call.stage with
  | returned results time => trivial
  | broken =>
      rw [stage] at seated
      exact seated
  | _ => simp [RankingCall.isOver, stage] at ended

theorem seated_calledOff (seated : Seated s a jobs c call)
    (queued : call.isWaiting = true → call.cancelled = false → .ranking c ∈ a.ready) :
    Seated s a jobs c call.calledOff := by
  unfold Seated at seated ⊢
  have same : call.calledOff.stage = call.stage := rfl
  rw [same]
  have balanced' {misses : List String} (balanced : Balanced s jobs c call misses) :
      Balanced s jobs c call.calledOff misses :=
    ⟨balanced.running, balanced.permits, balanced.covers⟩
  cases stage : call.stage with
  | expected =>
      rw [stage] at seated
      obtain ⟨noHits, balanced, idle, summoned⟩ := seated
      exact ⟨noHits, balanced' balanced, idle, summoned⟩
  | dispatching misses =>
      rw [stage] at seated
      obtain ⟨left, balanced, called⟩ := seated
      refine ⟨left, balanced' balanced, Or.inl ?_⟩
      exact called.elim id fun going => queued (by simp [RankingCall.isWaiting, stage]) going.1
  | joining =>
      rw [stage] at seated
      obtain ⟨balanced, called⟩ := seated
      refine ⟨balanced' balanced, Or.inl ?_⟩
      exact called.elim id fun going => queued (by simp [RankingCall.isWaiting, stage]) going.1
  | returned results time => trivial
  | broken =>
      rw [stage] at seated
      exact seated

namespace TalliedBut

theorem owned_of_old (tallied : TalliedBut except s a jobs rankings)
    (old : ∀ job ∈ jobs', ∃ before ∈ jobs, job.owner = before.owner) :
    ∀ job ∈ jobs', ∀ c, job.owner = .ranking c → c < rankings.length := by
  intro job member c mine
  obtain ⟨before, member', same⟩ := old job member
  exact tallied.owned before member' c (same ▸ mine)

theorem congr (tallied : TalliedBut except s a jobs rankings)
    (same : ∀ c, ¬except c → SameCrew c jobs jobs')
    (queued : ∀ c, ¬except c → .ranking c ∈ a.ready → .ranking c ∈ b.ready)
    (summoned : ∀ c, ¬except c → .ranking c ∈ a.summons → .ranking c ∈ b.summons)
    (owned : ∀ job ∈ jobs', ∀ c, job.owner = .ranking c → c < rankings.length) :
    TalliedBut except s b jobs' rankings where
  seated := fun c call other known =>
    seated_congr (tallied.seated c call other known) (same c other) (queued c other)
      (summoned c other)
  owned := owned

theorem recalled (tallied : TalliedBut except s a jobs rankings)
    (queued : ∀ c, ¬except c → .ranking c ∈ a.ready → .ranking c ∈ b.ready)
    (summoned : ∀ c, ¬except c → .ranking c ∈ a.summons → .ranking c ∈ b.summons) :
    TalliedBut except s b jobs rankings :=
  tallied.congr (fun c _ => .refl c jobs) queued summoned tallied.owned

theorem wakeAll (tallied : TalliedBut except s a jobs rankings) (tasks : List Task) :
    TalliedBut except s (a.wakeAll tasks) jobs rankings :=
  tallied.recalled (fun _ _ queued => (Agenda.mem_ready_wakeAll _ _ _).mpr (Or.inl queued))
    (fun _ _ summoned => Agenda.mem_summons_wakeAll summoned _)

/-- Setting the excepted ranking right makes all accounts right. -/
theorem setRanking (others : TalliedBut (· = c) s a jobs rankings) (seated : Seated s a jobs c call) :
    Tallied s a jobs (rankings.set c call) where
  seated := by
    intro m other _ known
    rcases getElem?_of_set known with ⟨rfl, rfl⟩ | ⟨different, before⟩
    · exact seated
    · exact others.seated m other different before
  owned := by
    intro job member m mine
    rw [List.length_set]
    exact others.owned job member m mine

theorem pop (tallied : Tallied s a jobs rankings) {task : Task} (popped : a.pop? = some (task, b))
    (except : Nat → Prop) (accepted : ∀ c, task = .ranking c → except c) :
    TalliedBut except s b jobs rankings := by
  obtain ⟨shape, sleeping, -⟩ := Agenda.pop?_eq_some popped
  have all : TalliedBut except s a jobs rankings :=
    ⟨fun c call _ known => tallied.seated c call id known, tallied.owned⟩
  refine all.recalled ?_ ?_
  · intro c other queued
    rw [shape, List.mem_cons] at queued
    exact queued.resolve_left fun same => other (accepted c same.symm)
  · intro c other summoned
    rw [Agenda.summons, shape, List.cons_append, List.mem_cons] at summoned
    rw [Agenda.summons, sleeping]
    exact summoned.resolve_left fun same => other (accepted c same.symm)

end TalliedBut

end Accounts

section Endings

variable {s : Settings} {a : Agenda Task} {jobs : List Job} {c n : Nat} {call : RankingCall}
  {misses : List String} {rankings : List RankingCall} {job : Job} {outcome : Measurement}

theorem balanced_delivered (balanced : Balanced s jobs c call misses) (known : jobs[n]? = some job)
    (own : job.owner = .ranking c) (notDone : job.isDone = false) (mine : outcome.ip = job.ip) :
    Balanced s (jobs.modify n (.atStage (.done outcome))) c (delivered outcome call) misses := by
  have ended := live_ended known outcome c
  rw [liveOf_own own notDone] at ended
  have running := balanced.running
  have permits := balanced.permits
  refine ⟨?_, ?_, ?_⟩
  · simp only [delivered]
    omega
  · simp only [delivered]
    omega
  · intro ip
    have covers := balanced.covers ip
    have ended' := crew_ended known outcome c ip
    simp only [crewOf, liveOf_own own notDone] at ended'
    simp only [delivered, List.map_append, List.map_cons, List.map_nil, List.count_append,
      List.count_singleton, beq_iff_eq, mine] at covers ⊢
    omega

theorem seated_delivered (seated : Seated s a jobs c call) (known : jobs[n]? = some job)
    (own : job.owner = .ranking c) (notDone : job.isDone = false) (mine : outcome.ip = job.ip)
    {b : Agenda Task} (queued : call.isWaiting = true → .ranking c ∈ b.ready) :
    Seated s b (jobs.modify n (.atStage (.done outcome))) c (delivered outcome call) := by
  unfold Seated at seated ⊢
  have same : (delivered outcome call).stage = call.stage := rfl
  rw [same]
  cases stage : call.stage with
  | expected =>
      -- it has no jobs yet, so none of its jobs can end
      rw [stage] at seated
      have some' := live_ended known outcome c
      rw [liveOf_own own notDone, seated.2.2.1] at some'
      cases some'
  | dispatching misses =>
      rw [stage] at seated
      obtain ⟨left, balanced, -⟩ := seated
      exact ⟨left, balanced_delivered balanced known own notDone mine,
        Or.inl (queued (by simp [RankingCall.isWaiting, stage]))⟩
  | joining =>
      rw [stage] at seated
      exact ⟨balanced_delivered seated.1 known own notDone mine,
        Or.inl (queued (by simp [RankingCall.isWaiting, stage]))⟩
  | returned results time => trivial
  | broken =>
      rw [stage] at seated
      exact seated

/-- The end of a job keeps all accounts. -/
theorem tallied_ended (tallied : Tallied s a jobs rankings) (known : jobs[n]? = some job)
    (notDone : job.isDone = false) (mine : outcome.ip = job.ip) :
    Tallied s (a.wakeAll (heeding rankings job.owner)) (jobs.modify n (.atStage (.done outcome)))
      (rankingsAfter rankings outcome job.owner) := by
  have owned := tallied.owned_of_old fun _ member => owner_staged (n := n) (.done outcome) member
  cases owner : job.owner with
  | refresh =>
      exact tallied.congr (fun m _ => sameCrew_ended known (by simp [owner]) outcome) (fun _ _ => id)
        (fun _ _ => id) owned
  | ranking c =>
      refine ⟨fun m call' _ known' => ?_, fun other member m own => ?_⟩
      · obtain ⟨call, before, ⟨rfl, rfl⟩ | ⟨different, rfl⟩⟩ := getElem?_modified known'
        · refine seated_delivered (tallied.seated _ call id before) known owner notDone mine fun waits => ?_
          refine (Agenda.mem_ready_wakeAll _ _ _).mpr (Or.inr ?_)
          simp [heeding, before, waits]
        · have foreign : job.owner ≠ .ranking m := by simpa [owner] using different
          refine seated_congr (tallied.seated m _ id before) (sameCrew_ended known foreign outcome) ?_ ?_
          · exact fun queued => (Agenda.mem_ready_wakeAll _ _ _).mpr (Or.inl queued)
          · exact fun summoned => Agenda.mem_summons_wakeAll summoned _
      · simp only [rankingsAfter, List.length_modify]
        exact owned other member m own

end Endings

section Turns

variable {r r' : Ranker σ} {agenda : Agenda Task} {c n : Nat} {job : Job} {call call' : RankingCall}
  {misses : List String}

def Accounted (r : Ranker σ) : Prop := Tallied r.settings r.agenda r.jobs r.rankings

theorem accounted_completed {flights : Flights} {m : Measurement}
    (underway : Underway flights agenda r.jobs n job) (known : r.jobs[n]? = some job)
    (tallied : Tallied r.settings agenda r.jobs r.rankings) (notDone : job.isDone = false)
    (mine : m.ip = job.ip) (memory : σ) (journal : List RankerEvent) :
    Accounted (completed { r with agenda, flights, memory, journal } n job m) := by
  have told : Tallied r.settings (agenda.wakeAll ((flights.land job.key).2.map .job))
      (toldAll m (flights.land job.key).2 r.jobs) r.rankings :=
    (tallied.wakeAll _).congr (fun c _ => sameCrew_toldAll (open_of_waited underway) c) (fun _ _ => id)
      (fun _ _ => id) (tallied.owned_of_old fun _ member => owner_told member)
  exact tallied_ended told (still_of_underway underway known m) notDone mine

theorem accounted_jobTurn (boarded : Boarded r.flights r.agenda r.jobs)
    (honest : Honest r.jobs r.rankings) (accounted : Accounted r)
    (popped : r.agenda.pop? = some (.job n, agenda)) (known : r.jobs[n]? = some job)
    (turn : JobTurn { r with agenda } n job r') : Accounted r' := by
  have tallied : Tallied r.settings agenda r.jobs r.rankings :=
    TalliedBut.pop accounted popped (fun _ => False) fun c h => by cases h
  have owned (stage : JobStage) := tallied.owned_of_old fun _ member =>
    owner_staged (n := n) stage member
  cases turn with
  | waits stage behind =>
      have same : (job.atStage .waiting).isDone = job.isDone := by
        simp [Job.isDone, Job.atStage, stage]
      exact tallied.congr (fun c _ => sameCrew_stage known .waiting same c) (fun _ _ => id)
        (fun _ _ => id) (owned _)
  | @sleeps flights total left before after pending answers begins news memory sample delay attempts
      reported took fewer positive =>
      have same : (job.atStage (.attempting left after sample)).isDone = job.isDone :=
        (open_of_begins begins).symm
      refine tallied.congr (fun c _ => sameCrew_stage known _ same c) ?_ ?_
        (owned _)
      · exact fun c _ queued => Agenda.mem_ready_wakeAfter queued _ _
      · exact fun c _ summoned => Agenda.mem_summons_wakeAfter summoned _ _
  | concludes begins news memory attempts reported took all =>
      obtain ⟨underway, -⟩ := underway_of_begins boarded popped known begins
      exact accounted_completed underway known tallied (open_of_begins begins) (ip_conclude _ _ _) _ _
  | givesUp begins news memory attempts reported failed =>
      obtain ⟨underway, -⟩ := underway_of_begins boarded popped known begins
      exact accounted_completed underway known tallied (open_of_begins begins) rfl _ _
  | @ends outcome stage =>
      rw [finish_eq]
      exact tallied_ended tallied known (by simp [Job.isDone, stage])
        (honest.truthful job (List.mem_of_getElem? known) outcome stage)
  | idle stage => exact tallied

theorem ip_of_served {ip : String} {hit : Measurement} (answer : r.served ip = some hit) :
    hit.ip = ip := by
  unfold served at answer
  split at answer
  · obtain ⟨entry, -, answer⟩ := Option.bind_eq_some_iff.mp answer
    unfold CacheEntry.serve at answer
    split at answer
    · cases answer
    · cases answer
      rfl
  · cases answer

theorem count_looked_up (r : Ranker σ) (ip : String) (ips : List String) :
    ((ips.filterMap r.served).map Measurement.ip).count ip +
      (ips.filter fun ip => (r.served ip).isNone).count ip = ips.count ip := by
  induction ips with
  | nil => rfl
  | cons first rest ih =>
      rw [List.filterMap_cons, List.filter_cons, List.count_cons]
      cases answer : r.served first with
      | none =>
          simp only [Option.isNone_none, ↓reduceIte, List.count_cons]
          omega
      | some hit =>
          simp only [Option.isNone_some, Bool.false_eq_true, ↓reduceIte, List.map_cons,
            List.count_cons, ip_of_served answer]
          omega

/-- What is looked up and what is missing make up the candidates. -/
theorem balanced_of_sets (seated : Seated r.settings r.agenda r.jobs c call)
    (sets : Sets { r with agenda } call r' call' misses) :
    Balanced r.settings r.jobs c call' misses := by
  unfold Seated at seated
  cases sets with
  | looksUp stage =>
      rw [stage] at seated
      obtain ⟨noHits, balanced, idle, -⟩ := seated
      refine ⟨balanced.running, balanced.permits, fun ip => ?_⟩
      have covers := balanced.covers ip
      have looked := count_looked_up { r with agenda } ip (chosen r.settings call.candidates)
      rw [noHits, List.nil_append] at covers
      simp only [List.map_append, List.count_append]
      omega
  | goesOn stage =>
      rw [stage] at seated
      exact seated.2.1
  | waits stage =>
      rw [stage] at seated
      exact seated.1

theorem balanced_starting {jobs : List Job} (balanced : Balanced r.settings jobs c call misses)
    (domain : String) {started : Nat} (enough : started ≤ call.permits) (some' : started ≤ misses.length)
    (stage : RankingStage) :
    Balanced r.settings (jobs ++ (misses.take started).map fun ip => { ip, domain, owner := .ranking c })
      c (starting call started stage) (misses.drop started) where
  running := by
    rw [live_spawned, List.length_take, ← balanced.running, Nat.min_eq_left some']
    rfl
  permits := by
    have permits := balanced.permits
    simp only [starting]
    omega
  covers := by
    intro ip
    have covers := balanced.covers ip
    have parts := congrArg (List.count ip) (List.take_append_drop started misses)
    rw [List.count_append] at parts
    rw [crew_spawned]
    simp only [starting]
    omega

theorem tallied_enlists {recruits : List Job} {rankings : List RankingCall} {s : Settings}
    (tallied : TalliedBut (· = c) s r.agenda r.jobs rankings) (enlists : Enlists r recruits r')
    (owners : ∀ job ∈ recruits, job.owner = .refresh ∨ job.owner = .ranking c)
    (inside : c < rankings.length) : TalliedBut (· = c) s r'.agenda r'.jobs rankings := by
  rw [enlists.agenda, enlists.jobs]
  refine (tallied.wakeAll _).congr ?_ (fun _ _ => id) (fun _ _ => id) ?_
  · intro m other
    refine sameCrew_append fun job member mine => ?_
    rcases owners job member with refreshes | own
    · rw [refreshes] at mine
      cases mine
    · rw [own] at mine
      exact other (Owner.ranking.inj mine).symm
  · intro job member m mine
    rcases List.mem_append.mp member with old | new
    · exact tallied.owned job old m mine
    · rcases owners job new with refreshes | own
      · rw [refreshes] at mine
        cases mine
      · rw [own] at mine
        cases mine
        exact inside

theorem tallied_spawned (others : TalliedBut (· = c) r.settings agenda r.jobs r.rankings)
    (seated : Seated r.settings r.agenda r.jobs c call) (inside : c < r.rankings.length)
    {before : Ranker σ} (sets : Sets { r with agenda } call before call' misses) (started : Nat)
    (enough : started ≤ call'.permits) (some' : started ≤ misses.length) (stage : RankingStage) :
    let after := spawnAll call.domain (.ranking c) (misses.take started) before
    TalliedBut (· = c) after.settings after.agenda after.jobs after.rankings ∧
      Balanced after.settings after.jobs c (starting call' started stage) (misses.drop started) := by
  obtain ⟨refreshes, enlists, -, owners⟩ := enlists_of_sets sets
  have enlists' := enlists_spawnAll call.domain (.ranking c) (misses.take started) before
  have early := tallied_enlists (c := c) others enlists (fun job member => Or.inl (owners job member).1)
    inside
  have late := tallied_enlists early enlists' (fun job member => by
    obtain ⟨ip, -, rfl⟩ := List.mem_map.mp member
    exact Or.inr rfl) inside
  have crews : SameCrew c r.jobs before.jobs := by
    rw [enlists.jobs]
    exact sameCrew_append fun job member => by simp [(owners job member).1]
  have balanced := balanced_congr (balanced_of_sets seated sets) crews
  have started' := balanced_starting balanced call.domain enough some' stage
  intro after
  have settings : after.settings = r.settings := enlists'.settings.trans enlists.settings
  have rankings : after.rankings = r.rankings := enlists'.rankings.trans enlists.rankings
  rw [settings, rankings]
  refine ⟨late, ?_⟩
  rw [enlists'.jobs]
  exact started'

theorem accounted_rankingTurn (accounted : Accounted r)
    (popped : r.agenda.pop? = some (.ranking c, agenda)) (known : r.rankings[c]? = some call)
    (turn : RankingTurn { r with agenda } c call r') : Accounted r' := by
  have others : TalliedBut (· = c) r.settings agenda r.jobs r.rankings :=
    TalliedBut.pop accounted popped (· = c) fun m h => (Task.ranking.inj h).symm
  have seated : Seated r.settings r.agenda r.jobs c call := accounted.seated c call id known
  have inside := (List.getElem?_eq_some_iff.mp known).1
  cases turn with
  | @breaks before call' misses sets stage many =>
      -- It spawns nothing, so the tally is that of none spawned. So it is where it returns.
      obtain ⟨others', -⟩ := tallied_spawned others seated inside sets 0 (Nat.zero_le _)
        (Nat.zero_le _) .joining
      have limit : call.permits ≤ jobLimit r.settings := by
        unfold Seated at seated
        rw [stage] at seated
        have permits := seated.2.1.permits
        omega
      have settings : before.settings = r.settings := (settings_of_sets sets).trans rfl
      have short : permitLimit < jobLimit before.settings := by
        rw [settings]
        exact Nat.lt_of_lt_of_le many limit
      exact others'.setRanking short
  | @pauses before call' misses sets going few =>
      obtain ⟨others', balanced⟩ := tallied_spawned others seated inside sets call'.permits
        (Nat.le_refl _) (Nat.le_of_lt few) (.dispatching (misses.drop call'.permits))
      refine others'.setRanking ⟨?_, balanced, Or.inr ⟨?_, Nat.sub_self _⟩⟩
      · intro nothing
        have short := List.drop_eq_nil_iff.mp nothing
        omega
      · exact (sets_cancelled sets).trans going
  | @joins before call' misses sets going enough busy =>
      obtain ⟨others', balanced⟩ := tallied_spawned others seated inside sets misses.length enough
        (Nat.le_refl _) .joining
      rw [List.take_length] at others' balanced
      rw [List.drop_length] at balanced
      refine others'.setRanking ⟨balanced, Or.inr ⟨?_, Nat.pos_of_ne_zero busy⟩⟩
      exact (sets_cancelled sets).trans going
  | returns sets over' =>
      obtain ⟨others', -⟩ := tallied_spawned others seated inside sets 0 (Nat.zero_le _)
        (Nat.zero_le _) .joining
      exact others'.setRanking trivial
  | idle over' =>
      refine ⟨fun m other _ known' => ?_, others.owned⟩
      by_cases here : m = c
      · subst here
        cases known.symm.trans known'
        exact seated_of_over seated over'
      · exact others.seated m other here known'

theorem accounted_cancel {rankings : List RankingCall} {s : Settings} {jobs : List Job}
    {a : Agenda Task} (tallied : Tallied s a jobs rankings) (known : rankings[c]? = some call) :
    Tallied s (a.wakeAll (heedingCancel call c)) jobs (rankings.modify c RankingCall.calledOff) := by
  refine ⟨fun m other _ known' => ?_, fun job member m mine => ?_⟩
  · have woken := tallied.wakeAll (heedingCancel call c)
    obtain ⟨before, known'', ⟨rfl, rfl⟩ | ⟨different, rfl⟩⟩ := getElem?_modified known'
    · refine seated_calledOff (woken.seated _ before id known'') fun waits going => ?_
      cases known.symm.trans known''
      refine (Agenda.mem_ready_wakeAll _ _ _).mpr (Or.inr ?_)
      simp [heedingCancel, waits, going]
    · exact woken.seated m _ id known''
  · rw [List.length_modify]
    exact tallied.owned job member m mine

theorem accounted_of_turn (boarded : Boarded r.flights r.agenda r.jobs)
    (honest : Honest r.jobs r.rankings) (accounted : Accounted r) (turn : Turn r r') :
    Accounted r' := by
  cases turn with
  | rests empty => exact accounted
  | ofJob popped known turn => exact accounted_jobTurn boarded honest accounted popped known turn
  | ofRanking popped known turn => exact accounted_rankingTurn accounted popped known turn
  | ofCancel popped known =>
      have others := TalliedBut.pop accounted popped (fun _ => False) fun m h => by cases h
      exact accounted_cancel others known
  | @lapses task agenda popped noJob noRanking =>
      refine ⟨fun m call _ known => ?_, accounted.owned⟩
      have others := TalliedBut.pop accounted popped (fun m => task = .ranking m) fun _ h => h
      refine others.seated m call (fun same => ?_) known
      rw [noRanking m same] at known
      cases known

theorem accounted_request (accounted : Accounted r) (candidates : List String) (domain : String)
    (start : Nat) (cancelAfter : Option Nat) :
    Accounted (r.request candidates domain start cancelAfter) := by
  have queued (task : Task) (old : task ∈ r.agenda.ready) :
      task ∈ (r.request candidates domain start cancelAfter).agenda.ready :=
    kept_by_request (motive := fun a => task ∈ a.ready) r candidates domain start cancelAfter
      (Agenda.mem_ready_wakeAfter old _ _) fun _ _ begun => Agenda.mem_ready_wakeAfter begun _ _
  have summoned (task : Task)
      (begun : task ∈ (r.agenda.wakeAfter start (.ranking r.rankings.length)).summons) :
      task ∈ (r.request candidates domain start cancelAfter).agenda.summons :=
    kept_by_request (motive := fun a => task ∈ a.summons) r candidates domain start cancelAfter begun
      fun _ _ begun => Agenda.mem_summons_wakeAfter begun _ _
  have foreign : ∀ job ∈ r.jobs, job.owner ≠ .ranking r.rankings.length := fun job member mine =>
    absurd (accounted.owned job member _ mine) (Nat.lt_irrefl _)
  have alone : SameCrew r.rankings.length [] ([] ++ r.jobs) := sameCrew_append foreign
  have idle : live r.rankings.length r.jobs = 0 := alone.1
  refine ⟨fun m call _ known => ?_, fun job member m mine => ?_⟩
  · rcases ranking_of_request known with before | ⟨rfl, rfl⟩
    · exact seated_congr (accounted.seated m call id before) (.refl m r.jobs) (queued _)
        (fun old => summoned _ (Agenda.mem_summons_wakeAfter old _ _))
    · have same : (r.request candidates domain start cancelAfter).jobs = r.jobs := rfl
      refine ⟨rfl, ⟨idle.symm, rfl, fun ip => ?_⟩, idle, ?_⟩
      · have nobody : crew r.rankings.length ip r.jobs = 0 :=
          Nat.le_zero.mp (idle ▸ crew_le_live r.rankings.length ip r.jobs)
        rw [same, nobody]
        exact Nat.zero_add _
      · exact summoned _ (Agenda.mem_summons_wakeAfter_self _ _ _)
  · have inside := accounted.owned job member m mine
    have longer : (r.request candidates domain start cancelAfter).rankings.length =
        r.rankings.length + 1 := List.length_append
    omega

/-- Every act keeps all accounts. -/
theorem accounted_perform (r : Ranker σ) (act : Act σ) (boarded : Boarded r.flights r.agenda r.jobs)
    (honest : Honest r.jobs r.rankings) (accounted : Accounted r) : Accounted (r.perform act) := by
  rcases outcome_perform r act with ⟨-, turn⟩ | aside
  · exact accounted_of_turn boarded honest accounted turn
  · generalize r.perform act = r' at aside
    cases aside with
    | plain clock memory history cache sweeping stopped => exact accounted
    | ticks ticked =>
        exact accounted.recalled (fun _ _ => Agenda.mem_ready_tick ticked)
          (fun _ _ => Agenda.mem_summons_tick ticked)
    | rests time => exact accounted.recalled (fun _ _ => id) (fun _ _ => id)
    | asks candidates domain start cancelAfter => exact accounted_request accounted ..
    | cancels known => exact accounted_cancel accounted known

end Turns

end Ranker

end LatencyRank
