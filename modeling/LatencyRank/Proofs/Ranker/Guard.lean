import Mathlib
import LatencyRank.Proofs.Ranker.Boarding

/-!
The guard of the refreshes. An address stands on the list of those that are being refreshed exactly
while a refresh of it is live, and it stands there once: a refresh enters it as it is queued and strikes
it off as it ends, and no other job touches the list. So no address is refreshed twice at a time.
-/

namespace LatencyRank

namespace Ranker

variable {σ : Type}

section Counts

def refreshOf (ip : String) (job : Job) : Nat :=
  if job.owner = .refresh ∧ job.isDone = false ∧ job.ip = ip then 1 else 0

def refreshes (ip : String) (jobs : List Job) : Nat := totalOf (refreshOf ip) jobs

variable {jobs : List Job} {n : Nat} {job : Job} {ip : String}

theorem refreshOf_atStage (stage : JobStage) (same : (job.atStage stage).isDone = job.isDone)
    (ip : String) : refreshOf ip (job.atStage stage) = refreshOf ip job := by
  unfold refreshOf
  rw [same]
  rfl

theorem refreshes_stage (known : jobs[n]? = some job) (stage : JobStage)
    (same : (job.atStage stage).isDone = job.isDone) (ip : String) :
    refreshes ip (jobs.modify n (.atStage stage)) = refreshes ip jobs := by
  have total := totalOf_modify (refreshOf ip) known (.atStage stage)
  rw [refreshOf_atStage stage same] at total
  exact Nat.add_right_cancel total

theorem refreshes_toldAll {outcome : Measurement} {waiting : List Nat}
    (notDone : ∀ m ∈ waiting, ∀ job, jobs[m]? = some job → job.isDone = false) (ip : String) :
    refreshes ip (toldAll outcome waiting jobs) = refreshes ip jobs := by
  apply totalOf_modifyAll_of_same (Job.atStage (.told outcome)) (fun _ => rfl)
  intro m member job known
  exact refreshOf_atStage (.told outcome) (notDone m member job known).symm ip

theorem refreshes_ended (known : jobs[n]? = some job) (outcome : Measurement) (ip : String) :
    refreshes ip (jobs.modify n (.atStage (.done outcome))) + refreshOf ip job = refreshes ip jobs := by
  have total := totalOf_modify (refreshOf ip) known (.atStage (.done outcome))
  have idle : refreshOf ip (job.atStage (.done outcome)) = 0 := by
    simp [refreshOf, Job.atStage, Job.isDone]
  rw [idle, Nat.add_zero] at total
  exact total

theorem refreshes_append (ip : String) (jobs recruits : List Job) :
    refreshes ip (jobs ++ recruits) = refreshes ip jobs + refreshes ip recruits := totalOf_append ..

theorem refreshes_eq_count (ip : String) (r : Ranker σ) :
    refreshes ip r.jobs = (r.liveRefreshes.map Job.ip).count ip := by
  unfold refreshes liveRefreshes
  induction r.jobs with
  | nil => rfl
  | cons job rest ih =>
    rw [totalOf, ih, List.filter_cons]
    by_cases live : job.owner = .refresh ∧ job.isDone = false
    · obtain ⟨owner, notDone⟩ := live
      rw [if_pos (by simp [owner, notDone]), List.map_cons, List.count_cons]
      simp only [refreshOf, owner, notDone, true_and, beq_iff_eq]
      omega
    · rw [if_neg (by simpa using live), refreshOf, if_neg (fun all => live ⟨all.1, all.2.1⟩)]
      omega

end Counts

section Guard

variable {r r' : Ranker σ} {agenda : Agenda Task} {n : Nat} {job : Job}

/-- An address is listed as often as a refresh of it is live, and no more than once. -/
structure Guarded (r : Ranker σ) : Prop where
  listed : ∀ ip, r.refreshing.count ip = refreshes ip r.jobs
  once : r.refreshing.Nodup

theorem Guarded.congr (guarded : Guarded r) (refreshing : r'.refreshing = r.refreshing)
    (same : ∀ ip, refreshes ip r'.jobs = refreshes ip r.jobs) : Guarded r' where
  listed := fun ip => by rw [refreshing, same, guarded.listed]
  once := refreshing ▸ guarded.once

theorem Guarded.ended (guarded : Guarded r) (notDone : job.isDone = false)
    (refreshing : r'.refreshing = refreshingAfter r.refreshing job)
    (fewer : ∀ ip, refreshes ip r'.jobs + refreshOf ip job = refreshes ip r.jobs) : Guarded r' := by
  cases owner : job.owner with
  | ranking c =>
    rw [refreshingAfter, owner] at refreshing
    refine guarded.congr refreshing fun ip => ?_
    have fewer := fewer ip
    rwa [refreshOf, if_neg (by simp [owner])] at fewer
  | refresh =>
    rw [refreshingAfter, owner] at refreshing
    refine ⟨fun ip => ?_, refreshing ▸ guarded.once.filter _⟩
    have listed := guarded.listed ip
    have fewer := fewer ip
    have once := List.nodup_iff_count_le_one.mp guarded.once ip
    rw [refreshing]
    by_cases here : job.ip = ip
    · have gone : (r.refreshing.filter fun other => decide (other ≠ job.ip)).count ip = 0 := by
        refine List.count_eq_zero.mpr fun member => ?_
        simp [here] at member
      rw [refreshOf, if_pos ⟨owner, notDone, here⟩] at fewer
      rw [gone]
      omega
    · rw [refreshOf, if_neg (fun all => here all.2.2)] at fewer
      rw [List.count_filter (by simpa using fun same => here same.symm)]
      omega

theorem guarded_completed {flights : Flights} {m : Measurement} (guarded : Guarded r)
    (underway : Underway flights agenda r.jobs n job) (known : r.jobs[n]? = some job)
    (notDone : job.isDone = false) (memory : σ) (journal : List RankerEvent) :
    Guarded (completed { r with agenda, flights, memory, journal } n job m) := by
  refine guarded.ended notDone rfl fun ip => ?_
  -- who is told is not done yet, so telling changes no count
  have ended := refreshes_ended (still_of_underway underway known m) m ip
  rwa [refreshes_toldAll (open_of_waited underway)] at ended

theorem guarded_jobTurn (guarded : Guarded r) (boarded : Boarded r.flights r.agenda r.jobs)
    (popped : r.agenda.pop? = some (.job n, agenda)) (known : r.jobs[n]? = some job)
    (turn : JobTurn { r with agenda } n job r') : Guarded r' := by
  cases turn with
  | waits stage behind =>
    have same : (job.atStage .waiting).isDone = job.isDone := by simp [Job.isDone, Job.atStage, stage]
    exact guarded.congr rfl (refreshes_stage known .waiting same)
  | sleeps begins news memory sample delay attempts reported took fewer positive =>
    exact guarded.congr rfl (refreshes_stage known _ (open_of_begins begins).symm)
  | concludes begins news memory attempts reported took all =>
    obtain ⟨underway, -⟩ := underway_of_begins boarded popped known begins
    exact guarded_completed guarded underway known (open_of_begins begins) _ _
  | givesUp begins news memory attempts reported failed =>
    obtain ⟨underway, -⟩ := underway_of_begins boarded popped known begins
    exact guarded_completed guarded underway known (open_of_begins begins) _ _
  | @ends outcome stage =>
    rw [finish_eq]
    exact guarded.ended (by simp [Job.isDone, stage]) rfl (refreshes_ended known outcome)
  | idle stage => exact guarded.congr rfl fun ip => rfl

/-- A refresh of an address that is listed is not started again. -/
theorem Guarded.refresh (guarded : Guarded r) (ip domain : String) : Guarded (r.refresh ip domain) := by
  unfold Ranker.refresh
  split
  · exact guarded
  · rename_i absent
    constructor
    · intro other
      change (r.refreshing ++ [ip]).count other =
        refreshes other (r.jobs ++ [({ ip, domain, owner := .refresh } : Job)])
      rw [List.count_append, refreshes_append, guarded.listed, List.count_singleton]
      simp [refreshes, totalOf, refreshOf, Job.isDone]
    · exact List.nodup_append.mpr ⟨guarded.once, List.nodup_singleton ip, by
        intro other member same single
        rw [List.mem_singleton.mp single]
        rintro rfl
        exact absent member⟩

theorem Guarded.refreshAll (guarded : Guarded r) (domain : String) (ips : List String) :
    Guarded (refreshAll domain ips r) := by
  unfold Ranker.refreshAll
  induction ips generalizing r with
  | nil => exact guarded
  | cons ip rest ih => exact ih (guarded.refresh ip domain)

theorem refreshing_spawnAll (domain : String) (owner : Owner) (ips : List String) (r : Ranker σ) :
    (spawnAll domain owner ips r).refreshing = r.refreshing := by
  unfold Ranker.spawnAll
  induction ips generalizing r with
  | nil => rfl
  | cons ip rest ih => exact ih (r.spawn ip domain owner)

theorem Guarded.spawnAll (guarded : Guarded r) (domain : String) (c : Nat) (ips : List String) :
    Guarded (spawnAll domain (.ranking c) ips r) := by
  refine guarded.congr (refreshing_spawnAll ..) fun ip => ?_
  rw [(enlists_spawnAll domain (.ranking c) ips r).jobs, refreshes_append]
  refine Nat.add_eq_left.mpr (totalOf_eq_zero fun job member => ?_)
  obtain ⟨other, -, rfl⟩ := List.mem_map.mp member
  simp [refreshOf]

variable {c : Nat} {call mid : RankingCall} {before : Ranker σ} {misses : List String}

theorem Guarded.sets (guarded : Guarded r) (sets : Sets r call before mid misses) : Guarded before := by
  cases sets with
  | looksUp stage => exact guarded.refreshAll _ _
  | goesOn stage => exact guarded
  | waits stage => exact guarded

theorem guarded_rankingTurn (guarded : Guarded r) (turn : RankingTurn r c call r') : Guarded r' := by
  cases turn with
  | breaks sets stage many => exact (guarded.sets sets).congr rfl fun ip => rfl
  | pauses sets going few =>
    exact ((guarded.sets sets).spawnAll call.domain c _).congr rfl fun ip => rfl
  | joins sets going enough busy =>
    exact ((guarded.sets sets).spawnAll call.domain c _).congr rfl fun ip => rfl
  | returns sets over' => exact (guarded.sets sets).congr rfl fun ip => rfl
  | idle over' => exact guarded

theorem guarded_perform (boarded : Boarded r.flights r.agenda r.jobs) (guarded : Guarded r)
    (act : Act σ) : Guarded (r.perform act) := by
  rcases outcome_perform r act with ⟨-, turn⟩ | aside
  · generalize r.perform act = r' at turn
    cases turn with
    | rests empty => exact guarded
    | ofJob popped known turn => exact guarded_jobTurn guarded boarded popped known turn
    | @ofRanking c agenda call _ popped known turn =>
      have popped' : Guarded { r with agenda } := guarded.congr rfl fun ip => rfl
      exact guarded_rankingTurn popped' turn
    | ofCancel popped known => exact guarded.congr rfl fun ip => rfl
    | lapses popped noJob noRanking => exact guarded.congr rfl fun ip => rfl
  · generalize r.perform act = r' at aside
    cases aside <;> exact guarded.congr rfl fun ip => rfl

theorem guarded_make (settings : Settings) (base : String) (disk : Disk) (prober : Prober σ)
    (memory : σ) (clock : WallClock) : Guarded (make settings base disk prober memory clock) where
  listed := fun _ => rfl
  once := List.nodup_nil

theorem mem_refreshing_refreshAll {ip : String} {ips : List String}
    (listed : ip ∈ r.refreshing ∨ ip ∈ ips) (domain : String) :
    ip ∈ (Ranker.refreshAll domain ips r).refreshing := by
  unfold Ranker.refreshAll
  induction ips generalizing r with
  | nil => exact listed.resolve_right List.not_mem_nil
  | cons first rest ih =>
    have grown : ∀ other ∈ r.refreshing ++ [first], other ∈ (r.refresh first domain).refreshing := by
      unfold Ranker.refresh
      split
      · rename_i known
        intro other member
        rcases List.mem_append.mp member with old | new
        · exact old
        · exact List.mem_singleton.mp new ▸ known
      · exact fun other member => member
    apply ih
    rcases listed with old | new
    · exact Or.inl (grown ip (List.mem_append_left _ old))
    · rcases List.mem_cons.mp new with rfl | later
      · exact Or.inl (grown ip (by simp))
      · exact Or.inr later

/-- With the turn in which a ranking looks its candidates up every stale one is listed. -/
theorem listed_of_stale (turn : RankingTurn r c call r') (stage : call.stage = .expected) {ip : String}
    (candidate : ip ∈ chosen r.settings call.candidates) (stale : r.servesStale ip = true) :
    ip ∈ r'.refreshing := by
  have looked {before : Ranker σ} {mid : RankingCall} {misses : List String}
      (sets : Sets r call before mid misses) : ip ∈ before.refreshing := by
    cases sets with
    | looksUp stage => exact mem_refreshing_refreshAll (Or.inr (List.mem_filter.mpr ⟨candidate, stale⟩)) _
    | goesOn stage' => simp [stage] at stage'
    | waits stage' => simp [stage] at stage'
  cases turn with
  | breaks sets stage many => exact (looked sets :)
  | pauses sets going few =>
    have listed := looked sets
    rw [← refreshing_spawnAll call.domain (.ranking c)] at listed
    exact listed
  | joins sets going enough busy =>
    have listed := looked sets
    rw [← refreshing_spawnAll call.domain (.ranking c)] at listed
    exact listed
  | returns sets over' => exact (looked sets :)
  | idle over' => simp [RankingCall.isOver, stage] at over'

theorem Guarded.mem_refreshing (guarded : Guarded r) (ip : String) :
    ip ∈ r.refreshing ↔ (r.liveRefreshes.map Job.ip).count ip = 1 := by
  rw [← refreshes_eq_count, ← guarded.listed]
  have once := List.nodup_iff_count_le_one.mp guarded.once ip
  rw [← List.count_pos_iff]
  omega

theorem Guarded.perm (guarded : Guarded r) : r.refreshing.Perm (r.liveRefreshes.map Job.ip) :=
  List.perm_iff_count.mpr fun ip => by rw [guarded.listed, refreshes_eq_count]

end Guard

end Ranker

end LatencyRank
