import Mathlib
import LatencyRank.Proofs.Ranker.Turn

/-!
What a turn of a ranking can come to. Looking its candidates up starts refreshes and nothing else;
then as many misses become jobs as there are permits, and the ranking pauses, waits for its jobs or
returns.
-/

namespace LatencyRank.Ranker

variable {σ : Type}

section Enlisting

def spawnAll (domain : String) (owner : Owner) (ips : List String) (r : Ranker σ) : Ranker σ :=
  ips.foldl (fun r ip => r.spawn ip domain owner) r

def refreshAll (domain : String) (ips : List String) (r : Ranker σ) : Ranker σ :=
  ips.foldl (fun r ip => r.refresh ip domain) r

/-- The turns of new jobs, which are numbered on from the others. -/
def callsOf (jobs recruits : List Job) : List Task :=
  (List.range' jobs.length recruits.length).map .job

/-- The second ranker is the first with more jobs, all of which are queued. -/
structure Enlists (r : Ranker σ) (recruits : List Job) (r' : Ranker σ) : Prop where
  fresh : ∀ job ∈ recruits, job.stage = .queued
  jobs : r'.jobs = r.jobs ++ recruits
  agenda : r'.agenda = r.agenda.wakeAll (callsOf r.jobs recruits)
  journal : ∃ news, r'.journal = news ++ r.journal ∧ ∀ event ∈ news, ∃ n owner, event = .spawned n owner
  same : r' = { r with
    jobs := r'.jobs, agenda := r'.agenda, refreshing := r'.refreshing, journal := r'.journal }

variable {r r' r'' : Ranker σ} {recruits others : List Job}

theorem Enlists.nil (r : Ranker σ) : Enlists r [] r where
  fresh := fun _ member => absurd member List.not_mem_nil
  jobs := (List.append_nil _).symm
  agenda := rfl
  journal := ⟨[], rfl, fun _ member => absurd member List.not_mem_nil⟩
  same := rfl

theorem Enlists.append (front : Enlists r recruits r') (back : Enlists r' others r'') :
    Enlists r (recruits ++ others) r'' where
  fresh := by
    intro job member
    rcases List.mem_append.mp member with early | late
    · exact front.fresh job early
    · exact back.fresh job late
  jobs := by rw [back.jobs, front.jobs, List.append_assoc]
  agenda := by
    rw [back.agenda, front.agenda, front.jobs, callsOf, callsOf, callsOf, List.length_append,
      List.length_append, ← List.range'_append_1, List.map_append]
    exact (List.foldl_append ..).symm
  journal := by
    obtain ⟨old, before, spawned⟩ := front.journal
    obtain ⟨new, after, spawned'⟩ := back.journal
    refine ⟨new ++ old, by rw [after, before, List.append_assoc], ?_⟩
    intro event member
    rcases List.mem_append.mp member with late | early
    · exact spawned' event late
    · exact spawned event early
  same := by
    have last := back.same
    rw [front.same] at last
    exact last

section

variable (enlists : Enlists r recruits r')

include enlists

theorem Enlists.settings : r'.settings = r.settings := by rw [enlists.same]

theorem Enlists.flights : r'.flights = r.flights := by rw [enlists.same]

theorem Enlists.rankings : r'.rankings = r.rankings := by rw [enlists.same]

theorem Enlists.history : r'.history = r.history := by rw [enlists.same]

theorem Enlists.cache : r'.cache = r.cache := by rw [enlists.same]

end

theorem enlists_spawn (r : Ranker σ) (ip domain : String) (owner : Owner) :
    Enlists r [{ ip, domain, owner }] (r.spawn ip domain owner) where
  fresh := by simp
  jobs := rfl
  agenda := rfl
  journal := ⟨[.spawned r.jobs.length owner], rfl, by simp⟩
  same := rfl

theorem enlists_refresh (r : Ranker σ) (ip domain : String) :
    Enlists r [] (r.refresh ip domain) ∨
      Enlists r [{ ip, domain, owner := .refresh }] (r.refresh ip domain) := by
  unfold refresh
  split
  · exact Or.inl (.nil r)
  · have spawned := enlists_spawn { r with refreshing := r.refreshing ++ [ip] } ip domain .refresh
    exact Or.inr ⟨spawned.fresh, spawned.jobs, spawned.agenda, spawned.journal, rfl⟩

theorem enlists_spawnAll (domain : String) (owner : Owner) (ips : List String) (r : Ranker σ) :
    Enlists r (ips.map fun ip => { ip, domain, owner }) (spawnAll domain owner ips r) := by
  unfold spawnAll
  induction ips generalizing r with
  | nil => exact .nil r
  | cons ip rest ih => exact (enlists_spawn r ip domain owner).append (ih _)

theorem enlists_refreshAll (domain : String) (ips : List String) (r : Ranker σ) :
    ∃ recruits, Enlists r recruits (refreshAll domain ips r) ∧ recruits.length ≤ ips.length ∧
      ∀ job ∈ recruits, job.owner = .refresh ∧ job.domain = domain := by
  unfold refreshAll
  induction ips generalizing r with
  | nil => exact ⟨[], .nil r, Nat.le_refl _, fun _ member => absurd member List.not_mem_nil⟩
  | cons ip rest ih =>
      obtain ⟨later, enlists, few, refreshes⟩ := ih (r.refresh ip domain)
      rcases enlists_refresh r ip domain with none' | one
      · exact ⟨later, none'.append enlists, Nat.le_succ_of_le few, refreshes⟩
      · refine ⟨_, one.append enlists, ?_, ?_⟩
        · rw [List.length_append, List.length_singleton, List.length_cons]
          omega
        · intro job member
          rcases List.mem_append.mp member with first | late
          · rw [List.mem_singleton.mp first]
            exact ⟨rfl, rfl⟩
          · exact refreshes job late

def servesStale (r : Ranker σ) (ip : String) : Bool := (r.served ip).any fun hit => hit.method = .stale

theorem served_of_enlists {r r' : Ranker σ} {recruits : List Job} (enlists : Enlists r recruits r') :
    r'.served = r.served := by
  have time : r'.agenda.now = r.agenda.now := by rw [enlists.agenda, Agenda.now_wakeAll]
  rw [enlists.same]
  funext ip
  simp only [served, wall, time]

theorem served_refresh (r : Ranker σ) (ip domain : String) : (r.refresh ip domain).served = r.served :=
  (enlists_refresh r ip domain).elim served_of_enlists served_of_enlists

/-- Looking up: hits and misses are told by what the cache answers at this instant. -/
theorem partition_eq (domain : String) (ips : List String) (r : Ranker σ) :
    partition domain ips r =
      (refreshAll domain (ips.filter r.servesStale) r, ips.filterMap r.served,
        ips.filter fun ip => (r.served ip).isNone) := by
  induction ips generalizing r with
  | nil => rfl
  | cons ip rest ih =>
      unfold partition
      cases answer : r.served ip with
      | none =>
          have fresh : r.servesStale ip = false := by simp [servesStale, answer]
          simp only [ih, List.filter_cons, fresh, List.filterMap_cons, answer]
          simp
      | some hit =>
          by_cases stale : hit.method = .stale
          · have old : r.servesStale ip = true := by simp [servesStale, answer, stale]
            have same := r.served_refresh ip domain
            have same' : (r.refresh ip domain).servesStale = r.servesStale := by
              funext other
              simp only [servesStale, same]
            simp only [stale, ↓reduceIte, ih, same, same', List.filter_cons, old,
              List.filterMap_cons, answer]
            simp [refreshAll]
          · have fresh : r.servesStale ip = false := by simp [servesStale, answer, stale]
            simp only [stale, ↓reduceIte, ih, List.filter_cons, fresh, List.filterMap_cons, answer]
            simp

end Enlisting

section Turns

def starting (call : RankingCall) (jobs : Nat) (stage : RankingStage) : RankingCall :=
  { call with permits := call.permits - jobs, running := call.running + jobs, stage }

/-- Dispatching ends in one of three ways. -/
theorem dispatch_cases (c : Nat) (misses : List String) (r : Ranker σ) (call : RankingCall) :
    ((call.cancelled = true ∨ (misses = [] ∧ call.running = 0)) ∧
        dispatch c misses r call = r.conclude c call) ∨
      (call.cancelled = false ∧ call.permits < misses.length ∧
        dispatch c misses r call =
          (spawnAll call.domain (.ranking c) (misses.take call.permits) r).setRanking c
            (starting call call.permits (.dispatching (misses.drop call.permits)))) ∨
      (call.cancelled = false ∧ misses.length ≤ call.permits ∧ call.running + misses.length ≠ 0 ∧
        dispatch c misses r call =
          (spawnAll call.domain (.ranking c) misses r).setRanking c
            (starting call misses.length .joining)) := by
  induction misses generalizing r call with
  | nil =>
      unfold dispatch join
      by_cases cancelled : call.cancelled = true
      · exact Or.inl ⟨Or.inl cancelled, if_pos (Or.inl cancelled)⟩
      · by_cases idle : call.running = 0
        · exact Or.inl ⟨Or.inr ⟨rfl, idle⟩, if_pos (Or.inr idle)⟩
        · refine Or.inr (Or.inr ⟨by simpa using cancelled, Nat.zero_le _, idle, ?_⟩)
          rw [if_neg (not_or.mpr ⟨cancelled, idle⟩)]
          rfl
  | cons ip rest ih =>
      unfold dispatch
      by_cases cancelled : call.cancelled = true
      · rw [if_pos cancelled]
        exact Or.inl ⟨Or.inl cancelled, if_pos (Or.inl cancelled)⟩
      · have going : call.cancelled = false := by simpa using cancelled
        rw [if_neg cancelled]
        by_cases none' : call.permits = 0
        · rw [if_pos none']
          refine Or.inr (Or.inl ⟨going, by simp [none'], ?_⟩)
          unfold starting
          rw [none', Nat.add_zero]
          rfl
        · obtain ⟨permits, more⟩ := Nat.exists_eq_succ_of_ne_zero none'
          rw [if_neg none']
          -- One job is spawned here. The rest cannot find the ranking idle, for that job is running.
          rcases ih (r.spawn ip call.domain (.ranking c))
            { call with permits := call.permits - 1, running := call.running + 1 } with
            ⟨ended, -⟩ | ⟨-, few, result⟩ | ⟨-, enough, busy, result⟩
          · rcases ended with off | ⟨-, idle⟩
            · exact absurd off cancelled
            · exact absurd idle (Nat.succ_ne_zero _)
          · refine Or.inr (Or.inl ⟨going, ?_, ?_⟩)
            · simp only [more, List.length_cons] at few ⊢
              omega
            · rw [result]
              simp only [more, starting, List.take_succ_cons, List.drop_succ_cons,
                Nat.succ_eq_add_one, Nat.add_sub_cancel, Nat.sub_self, spawnAll, List.foldl_cons]
              rw [Nat.add_right_comm, Nat.add_assoc]
          · refine Or.inr (Or.inr ⟨going, ?_, ?_, ?_⟩)
            · simp only [more, List.length_cons] at enough ⊢
              omega
            · simp only [List.length_cons]
              omega
            · rw [result]
              simp only [starting, List.length_cons, spawnAll, List.foldl_cons]
              rw [Nat.sub_sub, Nat.add_comm 1, Nat.add_right_comm, Nat.add_assoc]

/-- How a ranking is placed that goes on: what is there once its candidates are looked up, and which
misses are left. -/
inductive Sets (r : Ranker σ) (call : RankingCall) : Ranker σ → RankingCall → List String → Prop
  | looksUp (stage : call.stage = .expected) :
      Sets r call
        (refreshAll call.domain
          ((chosen r.settings call.candidates).filter r.servesStale) r)
        { call with hits := (chosen r.settings call.candidates).filterMap r.served }
        ((chosen r.settings call.candidates).filter fun ip => (r.served ip).isNone)
  | goesOn {misses : List String} (stage : call.stage = .dispatching misses) :
      Sets r call r call misses
  | waits (stage : call.stage = .joining) : Sets r call r call []

/-- All outcomes of a ranking's turn. -/
inductive RankingTurn (r : Ranker σ) (c : Nat) (call : RankingCall) : Ranker σ → Prop
  /-- There cannot be as many permits as it wants. -/
  | breaks {r' : Ranker σ} {call' : RankingCall} {misses : List String}
      (sets : Sets r call r' call' misses) (stage : call.stage = .expected)
      (many : permitLimit < call.permits) :
      RankingTurn r c call (r'.setRanking c { call' with stage := .broken })
  | pauses {r' : Ranker σ} {call' : RankingCall} {misses : List String}
      (sets : Sets r call r' call' misses) (going : call.cancelled = false)
      (few : call'.permits < misses.length) :
      RankingTurn r c call
        ((spawnAll call.domain (.ranking c) (misses.take call'.permits) r').setRanking c
          (starting call' call'.permits (.dispatching (misses.drop call'.permits))))
  | joins {r' : Ranker σ} {call' : RankingCall} {misses : List String}
      (sets : Sets r call r' call' misses) (going : call.cancelled = false)
      (enough : misses.length ≤ call'.permits) (busy : call'.running + misses.length ≠ 0) :
      RankingTurn r c call
        ((spawnAll call.domain (.ranking c) misses r').setRanking c
          (starting call' misses.length .joining))
  /-- It was cancelled, or nothing of it is left. -/
  | returns {r' : Ranker σ} {call' : RankingCall} {misses : List String}
      (sets : Sets r call r' call' misses)
      (over' : call.cancelled = true ∨ (misses = [] ∧ call'.running = 0)) :
      RankingTurn r c call (r'.conclude c call')
  | idle (over' : call.isOver = true) : RankingTurn r c call r

variable {r r' : Ranker σ} {c : Nat} {call call' : RankingCall} {misses : List String}

theorem sets_cancelled (sets : Sets r call r' call' misses) : call'.cancelled = call.cancelled := by
  cases sets <;> rfl

theorem sets_domain (sets : Sets r call r' call' misses) : call'.domain = call.domain := by
  cases sets <;> rfl

theorem dispatch_turn (sets : Sets r call r' call' misses) :
    RankingTurn r c call (dispatch c misses r' call') := by
  have cases' := dispatch_cases c misses r' call'
  rw [sets_cancelled sets, sets_domain sets] at cases'
  rcases cases' with ⟨over', result⟩ | ⟨going, few, result⟩ | ⟨going, enough, busy, result⟩
  · rw [result]
    exact .returns sets over'
  · rw [result]
    exact .pauses sets going few
  · rw [result]
    exact .joins sets going enough busy

theorem resumeRanking_turn (known : r.rankings[c]? = some call) :
    RankingTurn r c call (r.resumeRanking c) := by
  unfold resumeRanking
  rw [known]
  dsimp only
  split
  · rename_i stage
    simp only [begin, partition_eq]
    have sets := Sets.looksUp (r := r) stage
    split
    · rename_i limits
      exact .breaks sets stage limits.2
    · exact dispatch_turn sets
  · rename_i left stage
    exact dispatch_turn (.goesOn stage)
  · rename_i stage
    -- waiting for jobs is dispatching with no misses left
    exact dispatch_turn (.waits stage)
  · rename_i results time stage
    exact .idle (by simp [RankingCall.isOver, stage])
  · rename_i stage
    exact .idle (by simp [RankingCall.isOver, stage])

end Turns

end LatencyRank.Ranker
