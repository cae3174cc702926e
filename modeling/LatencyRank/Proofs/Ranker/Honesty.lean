import Mathlib
import LatencyRank.Proofs.Ranker.Boarding

/-!
Whose outcome a job is told. Jobs share a measurement by the key of their pair; while no domain has
a colon in it, a key belongs to one address only, so the outcome is one for the job's own address.
-/

namespace LatencyRank

namespace Ranker

variable {σ : Type}

section Keys

/-- A domain that cannot be mistaken for a part of an address. -/
def Plain (domain : String) : Prop := ':' ∉ domain.toList

variable {ip ip' domain domain' : String}

/-- The end of an address can as well be the beginning of the domain. -/
def Overlaps (ip domain ip' domain' : String) : Prop :=
  ∃ middle, ip' = ip ++ ":" ++ middle ∧ domain = middle ++ ":" ++ domain'

/-- One pair reads like another. -/
def Confusable (ip domain ip' domain' : String) : Prop :=
  (ip = ip' ∧ domain = domain') ∨ Overlaps ip domain ip' domain' ∨ Overlaps ip' domain' ip domain

theorem Confusable.symm (alike : Confusable ip domain ip' domain') : Confusable ip' domain' ip domain := by
  rcases alike with ⟨rfl, rfl⟩ | overlaps | overlaps
  · exact Or.inl ⟨rfl, rfl⟩
  · exact Or.inr (Or.inr overlaps)
  · exact Or.inr (Or.inl overlaps)

theorem Overlaps.same (overlaps : Overlaps ip domain ip' domain') :
    pairKey ip domain = pairKey ip' domain' := by
  obtain ⟨middle, rfl, rfl⟩ := overlaps
  simp only [pairKey, String.append_assoc]

/-- The colon after the one address stands in the other, or after it. -/
theorem confusable_of_letters {more : List Char} (address : ip'.toList = ip.toList ++ more)
    (rest : ':' :: domain.toList = more ++ ':' :: domain'.toList) : Confusable ip domain ip' domain' := by
  cases more with
  | nil =>
    rw [List.append_nil] at address
    exact Or.inl ⟨String.toList_inj.mp address.symm, String.toList_inj.mp (List.cons.inj rest).2⟩
  | cons letter more =>
    obtain ⟨rfl, after⟩ := List.cons.inj rest
    refine Or.inr (Or.inl ⟨String.ofList more, ?_, ?_⟩)
    · rw [← String.toList_inj, address]
      simp [String.toList_append]
    · rw [← String.toList_inj, after]
      simp [String.toList_append]

theorem pairKey_eq_iff : pairKey ip domain = pairKey ip' domain' ↔ Confusable ip domain ip' domain' := by
  constructor
  · intro same
    have letters : ip.toList ++ ':' :: domain.toList = ip'.toList ++ ':' :: domain'.toList := by
      have texts := congrArg String.toList same
      simpa [pairKey, String.toList_append, List.append_assoc] using texts
    rcases List.append_eq_append_iff.mp letters with ⟨more, address, rest⟩ | ⟨more, address, rest⟩
    · exact confusable_of_letters address rest
    · exact (confusable_of_letters address rest).symm
  · rintro (⟨rfl, rfl⟩ | overlaps | overlaps)
    · rfl
    · exact overlaps.same
    · exact overlaps.same.symm

theorem Overlaps.not_plain (overlaps : Overlaps ip domain ip' domain') : ¬Plain domain := by
  obtain ⟨middle, -, rfl⟩ := overlaps
  simp [Plain, String.toList_append]

theorem Confusable.eq_of_plain (alike : Confusable ip domain ip' domain') (plain : Plain domain)
    (plain' : Plain domain') : ip = ip' ∧ domain = domain' := by
  rcases alike with same | overlaps | overlaps
  · exact same
  · exact absurd plain overlaps.not_plain
  · exact absurd plain' overlaps.not_plain

theorem ip_of_pairKey (same : pairKey ip domain = pairKey ip' domain') (plain : Plain domain)
    (plain' : Plain domain') : ip = ip' :=
  ((pairKey_eq_iff.mp same).eq_of_plain plain plain').1

end Keys

section Jobs

/-- All domains are plain, and nobody is told an outcome for another address. -/
structure Honest (jobs : List Job) (rankings : List RankingCall) : Prop where
  plain : ∀ job ∈ jobs, Plain job.domain
  asked : ∀ call ∈ rankings, Plain call.domain
  truthful : ∀ job ∈ jobs, ∀ outcome, job.stage = .told outcome → outcome.ip = job.ip

variable {jobs jobs' : List Job} {rankings rankings' : List RankingCall} {n : Nat} {job : Job}

theorem Honest.setJob (honest : Honest jobs rankings) (n : Nat) (stage : JobStage)
    (truth : ∀ outcome, stage = .told outcome → ∀ job, jobs[n]? = some job → outcome.ip = job.ip) :
    Honest (jobs.modify n (.atStage stage)) rankings where
  plain := by
    intro job member
    obtain ⟨old, member', rfl | rfl⟩ := mem_modify member
    · exact honest.plain _ member'
    · exact honest.plain old member'
  asked := honest.asked
  truthful := by
    intro job member outcome told
    obtain ⟨m, known⟩ := List.mem_iff_getElem?.mp member
    obtain ⟨old, known', ⟨rfl, rfl⟩ | ⟨different, rfl⟩⟩ := getElem?_modified known
    · exact truth outcome told old known'
    · exact honest.truthful _ (List.mem_of_getElem? known') outcome told

theorem Honest.toldAll (honest : Honest jobs rankings) {outcome : Measurement} {waiting : List Nat}
    (truth : ∀ m ∈ waiting, ∀ job, jobs[m]? = some job → outcome.ip = job.ip) :
    Honest (toldAll outcome waiting jobs) rankings where
  plain := by
    intro job member
    obtain ⟨old, member', rfl | rfl⟩ := mem_toldAll member
    · exact honest.plain _ member'
    · exact honest.plain old member'
  asked := honest.asked
  truthful := by
    intro job member other told
    obtain ⟨m, known⟩ := List.mem_iff_getElem?.mp member
    rcases job_of_toldAll known with ⟨waited, old, known', rfl⟩ | ⟨-, known'⟩
    · cases told
      exact truth m waited old known'
    · exact honest.truthful job (List.mem_of_getElem? known') other told

theorem Honest.reordered (honest : Honest jobs rankings)
    (same : rankings'.map RankingCall.order = rankings.map RankingCall.order) :
    Honest jobs rankings' where
  plain := honest.plain
  asked := by
    intro call member
    have ordered : call.order ∈ rankings.map RankingCall.order := by
      rw [← same]
      exact List.mem_map_of_mem member
    obtain ⟨old, member', order⟩ := List.mem_map.mp ordered
    have domain : call.domain = old.domain := (congrArg Prod.snd order).symm
    rw [domain]
    exact honest.asked old member'
  truthful := honest.truthful

theorem Honest.append (honest : Honest jobs rankings) {recruits : List Job}
    (fresh : ∀ job ∈ recruits, job.stage = .queued) (plain : ∀ job ∈ recruits, Plain job.domain) :
    Honest (jobs ++ recruits) rankings where
  plain := by
    intro job member
    rcases List.mem_append.mp member with old | new
    · exact honest.plain job old
    · exact plain job new
  asked := honest.asked
  truthful := by
    intro job member outcome told
    rcases List.mem_append.mp member with old | new
    · exact honest.truthful job old outcome told
    · rw [fresh job new] at told
      cases told

end Jobs

section Turns

variable {r r' : Ranker σ} {agenda : Agenda Task} {n : Nat} {job : Job}

theorem honest_completed {flights : Flights} {m : Measurement}
    (underway : Underway flights agenda r.jobs n job) (known : r.jobs[n]? = some job)
    (honest : Honest r.jobs r.rankings) (mine : m.ip = job.ip) (memory : σ)
    (journal : List RankerEvent) :
    let r' := completed { r with agenda, flights, memory, journal } n job m
    Honest r'.jobs r'.rankings := by
  have truth : ∀ k ∈ (flights.land job.key).2, ∀ other, r.jobs[k]? = some other → m.ip = other.ip := by
    intro k waited other known'
    obtain ⟨-, itself, known'', sameKey, -⟩ := waited_of_underway underway waited
    rw [known'] at known''
    cases known''
    rw [mine]
    exact ip_of_pairKey sameKey.symm (honest.plain job (List.mem_of_getElem? known))
      (honest.plain other (List.mem_of_getElem? known'))
  have told := (honest.toldAll truth).setJob n (.done m) (fun outcome h => by cases h)
  exact told.reordered (orders_rankingsAfter r.rankings m job.owner)

theorem honest_jobTurn (boarded : Boarded r.flights r.agenda r.jobs)
    (popped : r.agenda.pop? = some (.job n, agenda)) (known : r.jobs[n]? = some job)
    (honest : Honest r.jobs r.rankings) (turn : JobTurn { r with agenda } n job r') :
    Honest r'.jobs r'.rankings := by
  cases turn with
  | waits stage behind => exact honest.setJob n _ fun outcome h => by cases h
  | sleeps begins news memory sample delay attempts reported took fewer positive =>
      exact honest.setJob n _ fun outcome h => by cases h
  | concludes begins news memory attempts reported took all =>
      obtain ⟨underway, -⟩ := underway_of_begins boarded popped known begins
      exact honest_completed underway known honest (ip_conclude _ _ _) _ _
  | givesUp begins news memory attempts reported failed =>
      obtain ⟨underway, -⟩ := underway_of_begins boarded popped known begins
      exact honest_completed underway known honest rfl _ _
  | @ends outcome stage =>
      rw [finish_eq]
      have ended := honest.setJob n (.done outcome) (fun other h => by cases h)
      exact ended.reordered (orders_rankingsAfter r.rankings outcome job.owner)
  | idle stage => exact honest

theorem honest_of_turn (boarded : Boarded r.flights r.agenda r.jobs) (honest : Honest r.jobs r.rankings)
    (turn : Turn r r') : Honest r'.jobs r'.rankings := by
  have orders := orders_of_turn turn
  cases turn with
  | rests empty => exact honest
  | ofJob popped known turn => exact honest_jobTurn boarded popped known honest turn
  | @ofRanking c agenda call _ popped known turn =>
      rcases recruits_of_turn turn with rfl | ⟨recruits, r'', call'', news, enlisted, rfl, -⟩
      · exact honest
      · have more := honest.append enlisted.enlists.fresh fun job member => by
          rw [(enlisted.owners job member).1]
          exact honest.asked call (List.mem_of_getElem? known)
        have jobs : r''.jobs = r.jobs ++ recruits := enlisted.enlists.jobs
        rw [← jobs] at more
        exact more.reordered orders
  | ofCancel popped known => exact honest.reordered orders
  | lapses popped noJob noRanking => exact honest

/-- Every act keeps the jobs honest, if nothing is asked for under a domain that is not plain. -/
theorem honest_perform (r : Ranker σ) (act : Act σ) (boarded : Boarded r.flights r.agenda r.jobs)
    (honest : Honest r.jobs r.rankings) (plain : ∀ order ∈ requested [act], Plain order.2) :
    Honest (r.perform act).jobs (r.perform act).rankings := by
  have orders := orders_perform r act
  have asked : ∀ call ∈ (r.perform act).rankings, Plain call.domain := by
    intro call member
    have ordered := List.mem_map_of_mem (f := RankingCall.order) member
    rw [orders, List.mem_append] at ordered
    rcases ordered with old | new
    · obtain ⟨before, member', order⟩ := List.mem_map.mp old
      have domain : before.domain = call.domain := congrArg Prod.snd order
      rw [← domain]
      exact honest.asked before member'
    · exact plain call.order new
  rcases outcome_perform r act with ⟨-, turn⟩ | aside
  · exact honest_of_turn boarded honest turn
  · have jobs : (r.perform act).jobs = r.jobs := by
      generalize r.perform act = r' at aside
      cases aside <;> rfl
    rw [jobs]
    exact ⟨honest.plain, asked, honest.truthful⟩

end Turns

end Ranker

end LatencyRank
