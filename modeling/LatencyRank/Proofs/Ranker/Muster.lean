import Mathlib
import LatencyRank.Proofs.Ranker.Crew
import LatencyRank.Proofs.Ranker.Toil

/-!
How a ranking stands with its crew, through any course. It has collected what its jobs came to; before
its first turn, or if it broke, it has none; and once it is called off it has its turn at the same
instant. So a ranking that is called off and left alone is over before time moves.
-/

namespace LatencyRank

namespace Ranker

variable {σ : Type}

section Standing

/-- A ranking stands with its crew and on the agenda as its stage says. -/
structure Crewed (r : Ranker σ) (c : Nat) (call : RankingCall) : Prop where
  fresh : call.fresh.Perm (found c r.jobs)
  expected : call.stage = .expected → roster c r.jobs = [] ∧
    call.permits = max r.settings.concurrency 1 ∧ .ranking c ∈ r.agenda.summons
  calledOff : call.isWaiting = true → call.cancelled = true → .ranking c ∈ r.agenda.ready
  broken : call.stage = .broken →
    roster c r.jobs = [] ∧ permitLimit < max r.settings.concurrency 1

/-- All rankings stand so, and a ranking that nobody asked for has no crew. -/
structure Mustered (r : Ranker σ) : Prop where
  crewed : ∀ c call, r.rankings[c]? = some call → Crewed r c call
  strange : ∀ c, r.rankings.length ≤ c → roster c r.jobs = []

variable {r r' : Ranker σ} {agenda : Agenda Task} {c : Nat} {call call' mid : RankingCall}
  {misses : List String} {jobs : Nat}

theorem found_of_nobody {crew : List Job} (nobody : roster c crew = []) : found c crew = [] := by
  refine List.filterMap_eq_nil_iff.mpr fun job member => ?_
  have silent := List.filterMap_eq_nil_iff.mp nobody job member
  unfold posted at silent
  split at silent
  · cases silent
  · rename_i foreign
    exact if_neg foreign

theorem open_of_expected (stage : call.stage = .expected) : call.isOver = false := by
  simp [RankingCall.isOver, stage]

theorem open_of_waiting (waits : call.isWaiting = true) : call.isOver = false := by
  unfold RankingCall.isWaiting at waits
  unfold RankingCall.isOver
  split at waits
  · rename_i misses stage
    rw [stage]
  · rename_i stage
    rw [stage]
  · cases waits

theorem isWaiting_of_stage (same : call'.stage = call.stage) : call'.isWaiting = call.isWaiting := by
  rw [RankingCall.isWaiting, RankingCall.isWaiting, same]

theorem isOver_of_stage (same : call'.stage = call.stage) : call'.isOver = call.isOver := by
  rw [RankingCall.isOver, RankingCall.isOver, same]

theorem Crewed.beside (crewed : Crewed r c call) (settings : r'.settings = r.settings)
    (beside : Beside r r' c call call') : Crewed r' c call' where
  fresh := beside.fresh crewed.fresh
  expected := by
    intro stage
    have stage' : call.stage = .expected := beside.stage ▸ stage
    obtain ⟨nobody, permits, called⟩ := crewed.expected stage'
    rw [settings, beside.posts, beside.permits nobody]
    exact ⟨nobody, permits, (beside.recalls (open_of_expected stage')).summons called⟩
  calledOff := by
    intro waits off
    rw [isWaiting_of_stage beside.stage] at waits
    cases before : call.cancelled with
    | false => exact beside.called before off waits
    | true =>
      exact (beside.recalls (open_of_waiting waits)).ready (crewed.calledOff waits before)
  broken := by
    intro stage
    rw [settings, beside.posts]
    exact crewed.broken (beside.stage ▸ stage)

theorem Crewed.proceeds (crewed : Crewed r c call) (settings : r'.settings = r.settings)
    (proceeds : Proceeds { r with agenda } c call mid misses r' call' jobs) : Crewed r' c call' where
  fresh := by
    rw [proceeds.fresh, proceeds.reports]
    exact crewed.fresh
  expected := by
    intro stage
    have next := proceeds.stage
    rw [stage] at next
    exact next.elim
  calledOff := by
    intro waits off
    rw [proceeds.cancelled] at off
    rcases (proceeds.ends off).2 with ⟨results, stage⟩ | stage
    · simp [RankingCall.isWaiting, stage] at waits
    · simp [RankingCall.isWaiting, stage] at waits
  broken := by
    intro stage
    have next := proceeds.stage
    rw [stage] at next
    obtain ⟨none', expected, many⟩ := next
    obtain ⟨nobody, permits, -⟩ := crewed.expected expected
    rw [proceeds.posts, none', List.take_zero, List.append_nil, settings]
    exact ⟨nobody, permits ▸ many⟩

theorem strange_perform (act : Act σ) (unknown : (r.perform act).rankings[c]? = none)
    (nobody : roster c r.jobs = []) : roster c (r.perform act).jobs = [] := by
  have still (stage : JobStage) (job : Job) : posted c (job.atStage stage) = posted c job := rfl
  rcases outcome_perform r act with ⟨-, turn⟩ | aside
  · generalize r.perform act = r' at unknown turn
    cases turn with
    | ofJob popped known turn =>
      have views := map_of_jobTurn still turn
      exact (filterMap_of_map views).trans nobody
    | @ofRanking m agenda call _ popped known turn =>
      rcases recruits_of_turn turn with rfl | ⟨recruits, r'', call'', news, enlisted, rfl, -⟩
      · exact nobody
      · have calls : r''.rankings = r.rankings := enlisted.enlists.rankings
        have more : r''.jobs = r.jobs ++ recruits := enlisted.enlists.jobs
        have different : m ≠ c := by
          rintro rfl
          simp only [setRanking, calls, List.getElem?_set_self
            (List.getElem?_eq_some_iff.mp known).1] at unknown
          cases unknown
        simp only [setRanking, more]
        rw [roster_append, nobody, roster_of_foreign (enlisted.foreign different), List.append_nil]
    | _ => exact nobody
  · rw [aside.still.1]
    exact nobody

theorem mustered_make (settings : Settings) (base : String) (disk : Disk) (prober : Prober σ)
    (memory : σ) (clock : WallClock) : Mustered (make settings base disk prober memory clock) where
  crewed := by simp [make]
  strange := fun _ _ => rfl

theorem Mustered.perform (mustered : Mustered r) (boarded : Boarded r.flights r.agenda r.jobs)
    (act : Act σ) : Mustered (r.perform act) := by
  have settings : (r.perform act).settings = r.settings := (fixed_perform r act).1
  constructor
  · intro c call' known'
    cases passage_perform boarded act known' with
    | beside known beside => exact (mustered.crewed c _ known).beside settings beside
    | enters new shape jobs called =>
      have nobody := mustered.strange c (Nat.le_of_eq new.symm)
      have nothing := found_of_nobody nobody
      rw [shape]
      refine ⟨?_, fun _ => ?_, fun waits => ?_, fun stage => ?_⟩
      · rw [jobs, nothing]
        exact List.Perm.refl []
      · rw [jobs, settings]
        exact ⟨nobody, rfl, called⟩
      · cases waits
      · cases stage
    | @turns agenda call isTurn popped known open' turn =>
      obtain ⟨before, mid, misses, jobs, -, proceeds⟩ :=
        proceeds_of_turn (r := { r with agenda }) known open' turn known'
      exact (mustered.crewed c call known).proceeds settings proceeds
  · intro c outside
    refine strange_perform act (List.getElem?_eq_none_iff.mpr outside) (mustered.strange c ?_)
    have longer := length_rankings_perform r act
    omega

/-- Every job agrees with the flights and the agenda, and every ranking with the jobs that it has. -/
structure CrewsAgree (r : Ranker σ) : Prop where
  boarded : Boarded r.flights r.agenda r.jobs
  mustered : Mustered r

theorem crewsAgree_make (settings : Settings) (base : String) (disk : Disk) (prober : Prober σ)
    (memory : σ) (clock : WallClock) : CrewsAgree (make settings base disk prober memory clock) where
  boarded := boarded_nothing fun _ => rfl
  mustered := mustered_make settings base disk prober memory clock

theorem CrewsAgree.perform (crews : CrewsAgree r) (act : Act σ) : CrewsAgree (r.perform act) where
  boarded := boarded_perform r act crews.boarded
  mustered := crews.mustered.perform crews.boarded act

theorem CrewsAgree.after (crews : CrewsAgree r) (acts : List (Act σ)) : CrewsAgree (r.after acts) :=
  after_induction (fun _ act crews => crews.perform act) crews acts

end Standing

end Ranker

end LatencyRank
