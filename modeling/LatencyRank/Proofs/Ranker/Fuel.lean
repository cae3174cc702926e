import Mathlib
import LatencyRank.Proofs.Ranker.Muster

/-!
Enough fuel. A ranker that takes as many turns as its work is counted to has nothing to do at that
instant any more, and time moves no more often than its horizon says before nothing is left at all.
-/

namespace LatencyRank

namespace Ranker

variable {σ : Type}

section Turns

def laborious (attempts : Nat) : Tariff attempts where
  stage
    | .queued => 4
    | .waiting | .attempting .. => 3
    | .told _ => 2
    | .done _ => 0
  miss := 5
  turn := 1
  waking := 0
  suffice := {
    waits := by decide
    begins := fun _ _ _ _ => Nat.le_refl _
    goesOn := fun _ _ _ _ _ _ _ => Nat.le_refl _
    ends := fun _ _ _ => show 1 ≤ 3 by decide
    telling := fun _ => Nat.le_refl _
    told := fun _ => one_le_two
    done := fun _ => rfl
    spawning := Nat.le_refl _ }

variable {r : Ranker σ}

theorem work_eq_cost (r : Ranker σ) : r.work = (laborious r.settings.attemptCount).cost r := by
  have jobs : jobWork = (laborious r.settings.attemptCount).jobCost := by
    funext job
    unfold jobWork Tariff.jobCost
    cases job.stage <;> rfl
  have rankings : rankingWork = (laborious r.settings.attemptCount).rankingCost := by
    funext call
    unfold rankingWork Tariff.rankingCost RankingCall.undispatched
    cases call.stage <;> rfl
  have turn : (laborious r.settings.attemptCount).turn = 1 := rfl
  have waking : (laborious r.settings.attemptCount).waking = 0 := rfl
  unfold work Tariff.cost Tariff.burden
  rw [jobs, rankings, turn, waking]
  omega

theorem work_turn (boarded : Boarded r.flights r.agenda r.jobs) (busy : r.agenda.ready ≠ []) :
    (r.perform .turn).work < r.work := by
  have paid := Tariff.cost_turn (laborious r.settings.attemptCount) boarded busy (turn_perform r)
  have settings := (fixed_perform r .turn).1
  rw [work_eq_cost, work_eq_cost, settings]
  exact paid

def turns (count : Nat) : List (Act σ) := List.replicate count .turn

/-- With enough fuel turns are taken until the condition holds or nothing can run. -/
theorem turnsUntil_eq (stop : Ranker σ → Bool) (boarded : Boarded r.flights r.agenda r.jobs) {fuel : Nat}
    (enough : r.work ≤ fuel) :
    ∃ count, turnsUntil stop fuel r = r.after (turns count) ∧
      (stop (r.after (turns count)) = true ∨ (r.after (turns count)).agenda.ready = []) := by
  induction fuel generalizing r with
  | zero =>
    refine ⟨0, rfl, Or.inr (List.length_eq_zero_iff.mp ?_)⟩
    change r.agenda.ready.length = 0
    unfold work at enough
    omega
  | succ fuel ih =>
    unfold turnsUntil
    by_cases holds : stop r = true
    · rw [if_pos holds]
      exact ⟨0, rfl, Or.inl holds⟩
    · rw [if_neg holds]
      cases next : r.step? with
      | none =>
        have rests : r.agenda.ready = [] := by
          rw [step?, Option.map_eq_none_iff] at next
          exact Agenda.pop?_eq_none.mp next
        exact ⟨0, rfl, Or.inr rests⟩
      | some r' =>
        have turned : r.perform .turn = r' := by rw [perform, next, Option.getD_some]
        have busy : r.agenda.ready ≠ [] := by
          intro empty
          rw [step?, Agenda.pop?_eq_none.mpr empty] at next
          cases next
        have less := work_turn boarded busy
        have boarded' := boarded_perform r .turn boarded
        rw [turned] at less boarded'
        obtain ⟨count, same, ends⟩ := ih boarded' (by omega)
        rw [← turned] at same ends
        exact ⟨count + 1, turned ▸ same, ends⟩

end Turns

section Wakings

def sleepy (attempts : Nat) : Tariff attempts where
  stage
    | .queued | .waiting => attempts
    | .attempting left _ _ => left
    | .told _ | .done _ => 0
  miss := attempts
  turn := 0
  waking := 1
  suffice := {
    waits := Nat.le_refl _
    begins := fun _ _ _ fewer => fewer
    goesOn := fun _ _ _ _ _ _ fewer => fewer
    ends := fun _ _ _ => Nat.zero_le _
    telling := fun _ => Nat.zero_le _
    told := fun _ => Nat.le_refl _
    done := fun _ => rfl
    spawning := Nat.le_refl _ }

variable {r r' : Ranker σ} {agenda : Agenda Task} {n c : Nat} {job : Job} {call call' : RankingCall}

/-- How often time can still move for a ranker. -/
def wakings (r : Ranker σ) : Nat := (sleepy r.settings.attemptCount).cost r

theorem wakings_turn (boarded : Boarded r.flights r.agenda r.jobs) :
    (r.perform .turn).wakings ≤ r.wakings := by
  unfold wakings
  rw [(fixed_perform r .turn).1]
  by_cases rests : r.agenda.ready = []
  · have same : r.perform .turn = r := by
      rw [perform, step?, Agenda.pop?_eq_none.mpr rests]
      rfl
    rw [same]
  · exact Tariff.cost_turn (sleepy r.settings.attemptCount) boarded rests (turn_perform r)

theorem wakings_tick {later : Agenda Task} (ticked : r.agenda.tick? = some later) :
    wakings { r with agenda := later } < r.wakings :=
  (sleepy r.settings.attemptCount).cost_tick ticked

theorem sleeping_le_wakings (r : Ranker σ) : r.agenda.sleeping.length ≤ r.wakings := by
  have waking : (sleepy r.settings.attemptCount).waking = 1 := rfl
  unfold wakings Tariff.cost Tariff.burden
  rw [waking]
  omega

/-- No job has more attempts left than there are to a measurement, and no ranking more candidates
than it was asked for. -/
structure Modest (r : Ranker σ) : Prop where
  jobs : ∀ job ∈ r.jobs, (sleepy r.settings.attemptCount).stage job.stage ≤ r.settings.attemptCount
  rankings : ∀ call ∈ r.rankings, call.undispatched ≤ call.candidates.length

theorem wakings_le_horizon (modest : Modest r) : r.wakings ≤ r.horizon := by
  have ofJobs : totalOf (sleepy r.settings.attemptCount).jobCost r.jobs ≤ r.settings.attemptCount *
      totalOf (fun job => if job.isDone then 0 else 1) r.jobs :=
    totalOf_le_mul fun job member => by
      have modest := modest.jobs job member
      unfold Tariff.jobCost
      cases stage : job.stage <;> simp_all [Job.isDone, sleepy]
  have ofRankings : totalOf (sleepy r.settings.attemptCount).rankingCost r.rankings ≤
      r.settings.attemptCount *
        totalOf (fun call => if call.isOver then 0 else call.candidates.length) r.rankings :=
    totalOf_le_mul fun call member => by
      have modest := Nat.mul_le_mul_left r.settings.attemptCount (modest.rankings call member)
      have none' : (if call.cancelled then 0 else (sleepy r.settings.attemptCount).turn) = 0 := ite_self 0
      unfold Tariff.rankingCost
      rw [none', Nat.add_zero]
      cases stage : call.stage <;> simp_all [RankingCall.undispatched, RankingCall.isOver, sleepy]
  have waking : (sleepy r.settings.attemptCount).waking = 1 := rfl
  have turn : (sleepy r.settings.attemptCount).turn = 0 := rfl
  unfold wakings horizon Tariff.cost Tariff.burden
  dsimp only
  rw [waking, turn, Nat.mul_add]
  omega

theorem modest_jobTurn (modest : Modest r) (known : r.jobs[n]? = some job)
    (turn : JobTurn { r with agenda } n job r') : ∀ job' ∈ r'.jobs,
      (sleepy r.settings.attemptCount).stage job'.stage ≤ r.settings.attemptCount := by
  have staged {jobs : List Job} {stage : JobStage} (old : ∀ other ∈ jobs,
      (sleepy r.settings.attemptCount).stage other.stage ≤ r.settings.attemptCount)
      (price : (sleepy r.settings.attemptCount).stage stage ≤ r.settings.attemptCount) :
      ∀ job' ∈ jobs.modify n (.atStage stage),
        (sleepy r.settings.attemptCount).stage job'.stage ≤ r.settings.attemptCount := by
    intro job' member
    obtain ⟨other, member', rfl | rfl⟩ := mem_modify member
    · exact old _ member'
    · exact price
  have told (m : Measurement) (waiting : List Nat) : ∀ job' ∈ toldAll m waiting r.jobs,
      (sleepy r.settings.attemptCount).stage job'.stage ≤ r.settings.attemptCount := by
    intro job' member
    obtain ⟨other, member', rfl | rfl⟩ := mem_toldAll member
    · exact modest.jobs _ member'
    · exact Nat.zero_le _
  cases turn with
  | waits stage behind => exact staged modest.jobs (Nat.le_refl _)
  | @sleeps flights total left before after pending answers begins news memory sample delay attempts
      reported took fewer positive =>
    refine staged modest.jobs ?_
    have own := modest.jobs job (List.mem_of_getElem? known)
    change left ≤ _
    cases begins with
    | first stage runs =>
      dsimp only at fewer
      omega
    | again stage =>
      dsimp only at fewer
      omega
    | @next before' progress sample' stage =>
      rw [stage] at own
      change total ≤ _ at own
      omega
  | concludes begins news memory attempts reported took all => exact staged (told _ _) (Nat.zero_le _)
  | givesUp begins news memory attempts reported failed => exact staged (told _ _) (Nat.zero_le _)
  | ends stage =>
    rw [finish_eq]
    exact staged modest.jobs (Nat.zero_le _)
  | idle stage => exact modest.jobs

theorem modest_enlists {recruits : List Job} (modest : Modest r) (enlists : Enlists r recruits r') :
    ∀ job ∈ r'.jobs, (sleepy r.settings.attemptCount).stage job.stage ≤ r.settings.attemptCount := by
  intro job member
  rw [enlists.jobs] at member
  rcases List.mem_append.mp member with old | new
  · exact modest.jobs job old
  · rw [enlists.fresh job new]
    exact Nat.le_refl _

theorem undispatched_perform {act : Act σ} (modest : Modest r)
    (boarded : Boarded r.flights r.agenda r.jobs)
    (known' : (r.perform act).rankings[c]? = some call') :
    call'.undispatched ≤ call'.candidates.length := by
  cases passage_perform boarded act known' with
  | @beside call known beside =>
    have less := modest.rankings call (List.mem_of_getElem? known)
    unfold RankingCall.undispatched at less ⊢
    rwa [beside.stage, beside.candidates]
  | enters new shape jobs called => exact Nat.le_of_eq (shape ▸ rfl)
  | @turns agenda call isTurn popped known open' turn =>
    obtain ⟨before, mid, misses, jobs, sets, proceeds⟩ :=
      proceeds_of_turn (r := { r with agenda }) known open' turn known'
    have less := modest.rankings call (List.mem_of_getElem? known)
    obtain ⟨recruits, -, few, -⟩ := enlists_of_sets sets
    have stage := proceeds.stage
    rw [proceeds.candidates, RankingCall.undispatched]
    cases shape : call'.stage with
    | expected => simp [shape] at stage
    | dispatching left =>
      simp only [shape] at stage
      rw [stage.2]
      have short := List.length_drop (l := misses) (i := jobs)
      dsimp only
      omega
    | _ => exact Nat.zero_le _

theorem modest_make (settings : Settings) (base : String) (disk : Disk) (prober : Prober σ)
    (memory : σ) (clock : WallClock) : Modest (make settings base disk prober memory clock) where
  jobs := by simp [make]
  rankings := by simp [make]

theorem Modest.perform (modest : Modest r) (boarded : Boarded r.flights r.agenda r.jobs) (act : Act σ) :
    Modest (r.perform act) where
  jobs := by
    rw [(fixed_perform r act).1]
    rcases outcome_perform r act with ⟨-, turn⟩ | aside
    · generalize r.perform act = r' at turn
      cases turn with
      | ofJob popped known turn => exact modest_jobTurn modest known turn
      | @ofRanking c agenda call _ popped known turn =>
        rcases recruits_of_turn turn with rfl | ⟨recruits, r'', call'', news, enlisted, rfl, -⟩
        · exact modest.jobs
        · have popped' : Modest { r with agenda } := ⟨modest.jobs, modest.rankings⟩
          exact (modest_enlists popped' enlisted.enlists :)
      | _ => exact modest.jobs
    · rw [aside.still.1]
      exact modest.jobs
  rankings := by
    intro call' member
    obtain ⟨c, known'⟩ := List.mem_iff_getElem?.mp member
    exact undispatched_perform modest boarded known'

end Wakings

end Ranker

end LatencyRank
