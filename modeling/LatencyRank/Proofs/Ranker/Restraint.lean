import Mathlib
import LatencyRank.Proofs.Ranker.Dialogue
import LatencyRank.Proofs.Ranker.Permits

/-!
Restraint. A ranking probes no more addresses at a time than its limit, and nobody probes a pair that
somebody probes already. The journal shows the attempts that are under way at every moment, also
between two events of one instant.
-/

namespace LatencyRank

namespace Ranker

variable {σ : Type}

section Attempts

/-- The attempts for some pairs that are under way after a journal: those that were asked and are
not answered yet. -/
def underWay (pairs : String → String → Bool) : List RankerEvent → List Nat
  | [] => []
  | .asked n ip domain _ :: earlier =>
    if pairs ip domain then n :: underWay pairs earlier else underWay pairs earlier
  | .answered n _ _ :: earlier => (underWay pairs earlier).filter (· ≠ n)
  | .spawned .. :: earlier | .measured .. :: earlier | .finished .. :: earlier
  | .returned .. :: earlier => underWay pairs earlier

variable {pairs : String → String → Bool} {journal news tail moment : List RankerEvent}
  {prober : Prober σ} {n now : Nat} {ip domain : String} {memory memory' : σ}
  {pending pending' : Option (Option Sample)}

theorem underWay_append (mute : ∀ event ∈ tail, event.isMute = true) :
    underWay pairs (tail ++ journal) = underWay pairs journal := by
  induction tail with
  | nil => rfl
  | cons event rest ih =>
    have later := ih fun other member => mute other (List.mem_cons_of_mem _ member)
    have silent := mute event List.mem_cons_self
    cases event with
    | asked m ip domain time => cases silent
    | answered m sample time => cases silent
    | _ => exact later

theorem underWay_talk (talk : Talk prober n ip domain now memory pending news memory' pending')
    (nodup : (underWay pairs journal).Nodup)
    (own : n ∈ underWay pairs journal ↔ pairs ip domain = true ∧ pending ≠ none) :
    (underWay pairs (news ++ journal)).Nodup ∧
      ∀ m, m ∈ underWay pairs (news ++ journal) ↔
        if m = n then pairs ip domain = true ∧ pending' ≠ none else m ∈ underWay pairs journal := by
  induction talk with
  | silence =>
    refine ⟨nodup, fun m => ?_⟩
    split
    · rename_i mine
      rw [mine]
      exact own
    · exact Iff.rfl
  | asks talk ih =>
    obtain ⟨apart, members⟩ := ih
    -- Nothing is pending when it asks, so it was not under way.
    have absent := members n
    rw [if_pos rfl] at absent
    simp only [List.cons_append, underWay]
    split
    · rename_i mine
      refine ⟨List.nodup_cons.mpr ⟨by simp [absent], apart⟩, fun m => ?_⟩
      rw [List.mem_cons, members]
      split
      · rename_i here
        simp [here, mine]
      · rename_i other
        simp [other]
    · rename_i foreign
      refine ⟨apart, fun m => ?_⟩
      rw [members]
      simp [foreign]
  | hears talk ih =>
    obtain ⟨apart, members⟩ := ih
    simp only [List.cons_append, underWay]
    refine ⟨apart.filter _, fun m => ?_⟩
    rw [List.mem_filter, members]
    by_cases here : m = n <;> simp [here]

theorem Talk.prior (talk : Talk prober n ip domain now memory pending news memory' pending')
    (within : moment <:+ news ++ journal) (after : journal <:+ moment) :
    ∃ news' memory'' pending'', moment = news' ++ journal ∧
      Talk prober n ip domain now memory pending news' memory'' pending'' := by
  have whole {said : List RankerEvent} {memory' : σ} {pending' : Option (Option Sample)}
      (talk : Talk prober n ip domain now memory pending said memory' pending')
      (same : moment = said ++ journal) : ∃ news' memory'' pending'', moment = news' ++ journal ∧
        Talk prober n ip domain now memory pending news' memory'' pending'' :=
    ⟨said, memory', pending', same, talk⟩
  induction talk with
  | silence => exact whole .silence (within.eq_of_length_le after.length_le)
  | asks talk ih =>
    rcases List.suffix_cons_iff.mp within with same | earlier
    · exact whole talk.asks same
    · exact ih earlier
  | hears talk ih =>
    rcases List.suffix_cons_iff.mp within with same | earlier
    · exact whole talk.hears same
    · exact ih earlier

end Attempts

section Moments

variable {r : Ranker σ} {pairs : String → String → Bool} {moment : List RankerEvent}

/-- The journal shows the attempts that the jobs make. -/
structure Tracked (r : Ranker σ) : Prop where
  nodup : ∀ pairs, (underWay pairs r.journal).Nodup
  shown : ∀ pairs n, n ∈ underWay pairs r.journal ↔
    r.outstanding n ≠ none ∧ ∃ job, r.jobs[n]? = some job ∧ pairs job.ip job.domain = true

/-- The attempts under way at a moment are made by jobs that are not done, and one for a key. -/
structure Orderly (r : Ranker σ) (pairs : String → String → Bool) (moment : List RankerEvent) :
    Prop where
  nodup : (underWay pairs moment).Nodup
  made : ∀ m ∈ underWay pairs moment, ∃ job, r.jobs[m]? = some job ∧
    pairs job.ip job.domain = true ∧ job.isDone = false
  single : ∀ m ∈ underWay pairs moment, ∀ k ∈ underWay pairs moment, ∀ job other : Job,
    r.jobs[m]? = some job → r.jobs[k]? = some other → job.key = other.key → m = k

theorem known_of_outstanding {n : Nat} (waits : r.outstanding n ≠ none) :
    ∃ job, r.jobs[n]? = some job ∧ job.isAttempting = true := by
  by_contra nobody
  refine waits (outstanding_eq_none_iff.mpr fun job known => ?_)
  by_contra attempts
  exact nobody ⟨job, known, by simpa using attempts⟩

theorem notDone_of_isAttempting {job : Job} (attempts : job.isAttempting = true) :
    job.isDone = false := by
  cases stage : job.stage <;> simp [Job.isAttempting, stage] at attempts
  simp [Job.isDone, stage]

theorem Tracked.own (tracked : Tracked r) {n : Nat} {job : Job} (known : r.jobs[n]? = some job) :
    n ∈ underWay pairs r.journal ↔ pairs job.ip job.domain = true ∧ r.outstanding n ≠ none := by
  rw [tracked.shown, known]
  constructor
  · rintro ⟨waits, _, ⟨⟩, mine⟩
    exact ⟨mine, waits⟩
  · rintro ⟨mine, waits⟩
    exact ⟨waits, job, rfl, mine⟩

theorem Tracked.orderly (tracked : Tracked r) (boarded : Boarded r.flights r.agenda r.jobs) :
    Orderly r pairs r.journal where
  nodup := tracked.nodup pairs
  made := by
    intro m member
    obtain ⟨waits, job, known, mine⟩ := (tracked.shown pairs m).mp member
    obtain ⟨_, known', attempts⟩ := known_of_outstanding waits
    cases known.symm.trans known'
    exact ⟨job, known, mine, notDone_of_isAttempting attempts⟩
  single := by
    intro m member k member' job other known known' sameKey
    obtain ⟨_, before, attempts⟩ := known_of_outstanding ((tracked.shown pairs m).mp member).1
    obtain ⟨_, before', attempts'⟩ := known_of_outstanding ((tracked.shown pairs k).mp member').1
    cases known.symm.trans before
    cases known'.symm.trans before'
    exact attempting_unique boarded known' attempts' known attempts sameKey

theorem orderly_of_talk {n : Nat} {job : Job} {memory' : σ} {news : List RankerEvent}
    {pending : Option (Option Sample)} (tracked : Tracked r)
    (boarded : Boarded r.flights r.agenda r.jobs) (known : r.jobs[n]? = some job)
    (open' : job.isDone = false) (single : ∀ m other, r.jobs[m]? = some other →
      other.isAttempting = true → other.key = job.key → m = n)
    (talk : Talk r.prober n job.ip job.domain r.agenda.now r.memory (r.outstanding n) news memory'
      pending) : Orderly r pairs (news ++ r.journal) := by
  obtain ⟨apart, members⟩ := underWay_talk talk (tracked.nodup pairs) (tracked.own known)
  have before : Orderly r pairs r.journal := tracked.orderly boarded
  have attempts {m : Nat} {other : Job} (member : m ∈ underWay pairs (news ++ r.journal))
      (different : m ≠ n) (known' : r.jobs[m]? = some other) : other.isAttempting = true := by
    rw [members, if_neg different, tracked.shown] at member
    obtain ⟨_, known'', attempts⟩ := known_of_outstanding member.1
    cases known'.symm.trans known''
    exact attempts
  refine ⟨apart, fun m member => ?_, fun m member k member' first second known' known'' sameKey => ?_⟩
  · have place := (members m).mp member
    split at place
    · rename_i here
      exact ⟨job, here ▸ known, place.1, open'⟩
    · exact before.made m place
  · by_cases here : m = n <;> by_cases there : k = n
    · exact here.trans there.symm
    · rw [here] at known' ⊢
      cases known.symm.trans known'
      exact (single k second known'' (attempts member' there known'') sameKey.symm).symm
    · rw [there] at known'' ⊢
      cases known.symm.trans known''
      exact single m first known' (attempts member here known') sameKey
    · exact attempting_unique boarded known'' (attempts member' there known'') known'
        (attempts member here known') sameKey

/-- At every moment of an act the attempts under way are in order. -/
theorem orderly_perform (tracked : Tracked r) (boarded : Boarded r.flights r.agenda r.jobs)
    (act : Act σ) (after : r.journal <:+ moment) (within : moment <:+ (r.perform act).journal) :
    Orderly r pairs moment := by
  have quiet {tail journal : List RankerEvent} (mute : ∀ event ∈ tail, event.isMute = true)
      (orderly : Orderly r pairs journal) (later : moment = tail ++ journal) :
      Orderly r pairs moment := by
    have same : underWay pairs moment = underWay pairs journal := later ▸ underWay_append mute
    obtain ⟨apart, made, single⟩ := orderly
    exact ⟨same ▸ apart, same ▸ made, same ▸ single⟩
  obtain ⟨added, rfl⟩ := after
  cases converses_perform r act boarded with
  | silent news journal mute same memory =>
    rw [journal, List.suffix_append_self_iff] at within
    exact quiet (fun event member => mute event (within.mem member)) (tracked.orderly boarded) rfl
  | speaks n job tail news pending turn known open' journal mute talk changed single =>
    have during {said : List RankerEvent} {memory : σ} {pending : Option (Option Sample)}
        (talk : Talk r.prober n job.ip job.domain r.agenda.now r.memory (r.outstanding n) said memory
          pending) : Orderly r pairs (said ++ r.journal) :=
      orderly_of_talk tracked boarded known open' single talk
    rw [journal] at within
    -- the moment is in the talk, or in what comes after it
    rcases List.suffix_or_suffix_of_suffix within (List.suffix_append tail (news ++ r.journal)) with
      early | late
    · obtain ⟨said, memory', pending', same, talk'⟩ := talk.prior early (List.suffix_append added _)
      exact same ▸ during talk'
    · obtain ⟨later, same⟩ := late
      rw [← same, List.suffix_append_self_iff] at within
      exact quiet (fun event member => mute event (within.mem member)) (during talk) same.symm

theorem pairs_perform {n : Nat} {job : Job} (act : Act σ) (known : r.jobs[n]? = some job) :
    (∃ job', (r.perform act).jobs[n]? = some job' ∧ pairs job'.ip job'.domain = true) ↔
      pairs job.ip job.domain = true := by
  obtain ⟨stage, known'⟩ := job_perform r act known
  rw [known']
  simp [Job.atStage]

theorem tracked_perform (tracked : Tracked r) (boarded : Boarded r.flights r.agenda r.jobs)
    (act : Act σ) : Tracked (r.perform act) := by
  have kept (pairs : String → String → Bool) {n : Nat} (waits : r.outstanding n ≠ none) :
      (∃ job, (r.perform act).jobs[n]? = some job ∧ pairs job.ip job.domain = true) ↔
        ∃ job, r.jobs[n]? = some job ∧ pairs job.ip job.domain = true := by
    obtain ⟨job, known, -⟩ := known_of_outstanding waits
    rw [pairs_perform act known, known]
    simp
  cases converses_perform r act boarded with
  | silent news journal mute same memory =>
    constructor
    · intro pairs
      rw [journal, underWay_append mute]
      exact tracked.nodup pairs
    · intro pairs n
      rw [journal, underWay_append mute, tracked.shown, same]
      exact and_congr_right fun waits => (kept pairs waits).symm
  | speaks n job tail news pending turn known open' journal mute talk changed single =>
    have after (pairs : String → String → Bool) :=
      underWay_talk talk (tracked.nodup pairs) (tracked.own known)
    constructor
    · intro pairs
      rw [journal, underWay_append mute]
      exact (after pairs).1
    · intro pairs m
      rw [journal, underWay_append mute, (after pairs).2, changed]
      split
      · rename_i here
        rw [here, Function.update_self, pairs_perform act known, and_comm]
      · rename_i other
        rw [Function.update_of_ne other, tracked.shown]
        exact and_congr_right fun waits => (kept pairs waits).symm

end Moments

section Bounds

variable {r : Ranker σ}

def isPair (ip domain ip' domain' : String) : Bool := decide (ip' = ip) && decide (domain' = domain)

theorem length_le_totalOf {α : Type} {measure : α → Nat} {items : List α} {places : List Nat}
    (nodup : places.Nodup)
    (counts : ∀ m ∈ places, ∃ item, items[m]? = some item ∧ 1 ≤ measure item) :
    places.length ≤ totalOf measure items := by
  -- from the back, as a place in the front of a list keeps its number
  induction items using List.reverseRecOn generalizing places with
  | nil =>
    cases places with
    | nil => exact Nat.le_refl _
    | cons m rest =>
      obtain ⟨item, known, -⟩ := counts m List.mem_cons_self
      simp at known
  | append_singleton front last ih =>
    have inFront : ∀ m ∈ places.erase front.length, ∃ item, front[m]? = some item ∧ 1 ≤ measure item := by
      intro m member
      obtain ⟨different, member'⟩ := (nodup.mem_erase_iff).mp member
      obtain ⟨item, known, positive⟩ := counts m member'
      have inside := (List.getElem?_eq_some_iff.mp known).1
      rw [List.length_append, List.length_singleton] at inside
      rw [List.getElem?_append_left (by omega)] at known
      exact ⟨item, known, positive⟩
    have fewer := ih (nodup.erase _) inFront
    rw [totalOf_append]
    by_cases member : front.length ∈ places
    · obtain ⟨item, known, positive⟩ := counts _ member
      rw [List.getElem?_concat_length, Option.some.injEq] at known
      rw [List.length_erase_of_mem member] at fewer
      simp only [known, totalOf]
      omega
    · rw [List.erase_of_not_mem member] at fewer
      omega

/-- Two attempts under way for one pair would be made by two jobs with one key. -/
theorem Orderly.length_le_one {ip domain : String} {moment : List RankerEvent}
    (orderly : Orderly r (isPair ip domain) moment) : (underWay (isPair ip domain) moment).length ≤ 1 := by
  obtain ⟨nodup, made, single⟩ := orderly
  cases shape : underWay (isPair ip domain) moment with
  | nil => exact Nat.zero_le _
  | cons m rest =>
    cases rest with
    | nil => exact Nat.le_refl _
    | cons k others =>
      rw [shape] at nodup made single
      obtain ⟨job, known, mine, -⟩ := made m (by simp)
      obtain ⟨other, known', mine', -⟩ := made k (by simp)
      simp only [isPair, Bool.and_eq_true, decide_eq_true_eq] at mine mine'
      have sameKey : job.key = other.key := by
        rw [Job.key, Job.key, mine.1, mine.2, mine'.1, mine'.2]
      have same := single m (by simp) k (by simp) job other known known' sameKey
      simp [same] at nodup

/-- What is known of a ranker and the attempts of its jobs after any course. -/
structure Watched (r : Ranker σ) : Prop where
  restrained : Restrained r
  tracked : Tracked r
  apart : ∀ ip domain moment, moment <:+ r.journal → (underWay (isPair ip domain) moment).length ≤ 1

theorem watched_make (settings : Settings) (base : String) (disk : Disk) (prober : Prober σ)
    (memory : σ) (clock : WallClock) : Watched (make settings base disk prober memory clock) where
  restrained := restrained_make settings base disk prober memory clock
  tracked := ⟨fun _ => List.nodup_nil, by simp [make, underWay, outstanding]⟩
  apart := by
    intro ip domain moment within
    rw [List.suffix_nil.mp within]
    exact Nat.zero_le _

theorem Watched.perform (watched : Watched r) (act : Act σ) : Watched (r.perform act) where
  restrained := watched.restrained.perform act
  tracked := tracked_perform watched.tracked watched.restrained.crews.boarded act
  apart := by
    intro ip domain moment within
    have boarded := watched.restrained.crews.boarded
    have grows : r.journal <:+ (r.perform act).journal := by
      cases converses_perform r act boarded with
      | silent news journal => exact ⟨news, journal.symm⟩
      | speaks n job tail news pending turn known open' journal =>
        exact ⟨tail ++ news, by rw [journal, List.append_assoc]⟩
    rcases List.suffix_or_suffix_of_suffix within grows with early | late
    · exact watched.apart ip domain moment early
    · exact (orderly_perform watched.tracked boarded act late within).length_le_one

theorem Watched.after (watched : Watched r) (acts : List (Act σ)) : Watched (r.after acts) :=
  after_induction (fun _ act watched => watched.perform act) watched acts

/-- Probing within bounds. -/
structure Moderate (r : Ranker σ) : Prop where
  /-- A ranking has no more jobs that are not done than its limit, whatever has become of it. -/
  crew : ∀ c, live c r.jobs ≤ max r.settings.concurrency 1
  /-- While all these jobs are of one ranking, no more attempts are under way at any moment. -/
  alone : ∀ c act moment, (∀ job ∈ r.jobs, job.isDone = false → job.owner = .ranking c) →
    r.journal <:+ moment → moment <:+ (r.perform act).journal →
      (underWay (fun _ _ => true) moment).length ≤ max r.settings.concurrency 1
  /-- One job at a time measures what belongs to a key. -/
  single : ∀ (m k : Nat) (job other : Job), r.jobs[m]? = some job → r.jobs[k]? = some other →
    job.isAttempting = true → other.isAttempting = true → job.key = other.key → m = k
  /-- At no moment so far were two attempts for a pair under way. -/
  apart : ∀ ip domain moment, moment <:+ r.journal →
    (underWay (isPair ip domain) moment).length ≤ 1
  /-- What the journal shows to be under way are the attempts of the jobs. -/
  shown : ∀ ip domain n, n ∈ underWay (isPair ip domain) r.journal ↔
    ∃ job, r.jobs[n]? = some job ∧ job.ip = ip ∧ job.domain = domain ∧ job.isAttempting = true

theorem Watched.alone (watched : Watched r) {c : Nat}
    (own : ∀ job ∈ r.jobs, job.isDone = false → job.owner = .ranking c) {act : Act σ}
    {moment : List RankerEvent} (after : r.journal <:+ moment)
    (within : moment <:+ (r.perform act).journal) :
    (underWay (fun _ _ => true) moment).length ≤ live c r.jobs := by
  have orderly : Orderly r (fun _ _ => true) moment :=
    orderly_perform watched.tracked watched.restrained.crews.boarded act after within
  refine length_le_totalOf orderly.nodup fun m member => ?_
  obtain ⟨job, known, -, open'⟩ := orderly.made m member
  exact ⟨job, known, Nat.le_of_eq (liveOf_own (own job (List.mem_of_getElem? known) open') open').symm⟩

theorem Watched.shown (watched : Watched r) (ip domain : String) (n : Nat) :
    n ∈ underWay (isPair ip domain) r.journal ↔
      ∃ job, r.jobs[n]? = some job ∧ job.ip = ip ∧ job.domain = domain ∧ job.isAttempting = true := by
  rw [watched.tracked.shown]
  constructor
  · rintro ⟨waits, job, known, mine⟩
    obtain ⟨_, known', attempts⟩ := known_of_outstanding waits
    cases known.symm.trans known'
    simp only [isPair, Bool.and_eq_true, decide_eq_true_eq] at mine
    exact ⟨job, known, mine.1, mine.2, attempts⟩
  · rintro ⟨job, known, rfl, rfl, attempts⟩
    refine ⟨fun none' => ?_, job, known, by simp [isPair]⟩
    rw [outstanding_eq_none_iff.mp none' job known] at attempts
    cases attempts

/-- Whatever rankings, cancellations and refreshes there are, probing stays within bounds. -/
theorem probing_bounded (settings : Settings) (base : String) (disk : Disk) (prober : Prober σ)
    (memory : σ) (clock : WallClock) (acts : List (Act σ)) :
    Moderate ((make settings base disk prober memory clock).after acts) := by
  have watched := (watched_make settings base disk prober memory clock).after acts
  generalize (make settings base disk prober memory clock).after acts = r at watched
  constructor
  case crew => exact watched.restrained.live_le
  case alone =>
    intro c act moment own after within
    exact (watched.alone own after within).trans (watched.restrained.live_le c)
  case single =>
    intro m k job other known known' attempts attempts' sameKey
    exact attempting_unique watched.restrained.crews.boarded known' attempts' known attempts sameKey
  case apart => exact watched.apart
  case shown => exact watched.shown

end Bounds

end Ranker

end LatencyRank
