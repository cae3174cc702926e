import Mathlib
import LatencyRank.Probe.Script
import LatencyRank.Proofs.Ranker.Crew
import LatencyRank.Proofs.Ranker.Toil
import LatencyRank.Proofs.Ranking.Order

/-!
A ranking loses, invents and repeats nothing. Whatever else is done with the ranker, before, beside
and after, every ranking returns; and one that was not cancelled by then returns each candidate as
often as it was chosen, in the order of the scores at that moment.
-/

namespace LatencyRank

namespace Ranker

variable {σ : Type}

section Invariant

/-- What holds of a ranker after any course: its jobs are in step with the flights and the agenda,
they are told the truth, and its rankings' accounts are right. -/
structure Sound (r : Ranker σ) : Prop where
  boarded : Boarded r.flights r.agenda r.jobs
  honest : Honest r.jobs r.rankings
  accounted : Accounted r

theorem sound_make (settings : Settings) (base : String) (disk : Disk) (prober : Prober σ)
    (memory : σ) (clock : WallClock) : Sound (make settings base disk prober memory clock) where
  boarded := boarded_nothing fun n => rfl
  honest := ⟨by simp [make], by simp [make], by simp [make]⟩
  accounted := ⟨by simp [make], by simp [make]⟩

theorem sound_perform {r : Ranker σ} (sound : Sound r) {act : Act σ}
    (plain : ∀ order ∈ requested [act], Plain order.2) : Sound (r.perform act) where
  boarded := boarded_perform r act sound.boarded
  honest := honest_perform r act sound.boarded sound.honest plain
  accounted := accounted_perform r act sound.boarded sound.honest sound.accounted

theorem sound_after {r : Ranker σ} (sound : Sound r) {acts : List (Act σ)}
    (plain : ∀ order ∈ requested acts, Plain order.2) : Sound (r.after acts) := by
  induction acts generalizing r with
  | nil => exact sound
  | cons act rest ih =>
      rw [requested_cons] at plain
      have first := sound_perform sound fun order member =>
        plain order (List.mem_append_left _ member)
      exact ih first fun order member => plain order (List.mem_append_right _ member)

end Invariant

section Returning

variable {r r' : Ranker σ} {c : Nat} {call : RankingCall}

def rankLimit (s : Settings) (candidates : Nat) : Nat :=
  if s.candidateLimit = 0 then candidates else min s.candidateLimit candidates

theorem chosen_eq_take (s : Settings) (candidates : List String) :
    chosen s candidates = candidates.take (rankLimit s candidates.length) := by
  unfold chosen rankLimit
  split
  · exact List.take_length.symm
  · exact List.take_eq_take_min

/-- A list is what the ranking of some candidates has to be for a ranker at a moment: each of the
first candidates, up to the limit, as often as it occurs there, in the order of the scores. -/
structure Exact (r : Ranker σ) (candidates : List String) (results : List Measurement) : Prop where
  complete :
    (results.map Measurement.ip).Perm (candidates.take (rankLimit r.settings candidates.length))
  ordered : results.Pairwise (Ranking.Ordered r.history r.wall)

theorem exact_of_sets {agenda : Agenda Task} {before : Ranker σ} {call' : RankingCall}
    {misses : List String} (sound : Sound r) (known : r.rankings[c]? = some call)
    (sets : Sets { r with agenda } call before call' misses) (none' : misses = [])
    (idle : call'.running = 0) :
    Exact (before.conclude c call') call.candidates
      (Ranking.rank (call'.hits ++ call'.fresh) before.history before.wall) where
  complete := by
    have balanced := balanced_of_sets (sound.accounted.seated c call id known) sets
    have nobody : live c r.jobs = 0 := balanced.running.symm.trans idle
    have settings : (before.conclude c call').settings = r.settings := (settings_of_sets sets).trans rfl
    rw [settings, ← chosen_eq_take]
    refine ((Ranking.rank_perm _ _ _).map Measurement.ip).trans (List.perm_iff_count.mpr fun ip => ?_)
    have covers := balanced.covers ip
    have empty : crew c ip r.jobs = 0 := Nat.le_zero.mp (nobody ▸ crew_le_live c ip r.jobs)
    rw [empty, none', List.count_nil, Nat.add_zero, sets_candidates sets] at covers
    exact covers
  ordered := Ranking.rank_ordered _ _ _

/-- What a turn of a ranking returns, it returns exactly, unless the ranking was cancelled. -/
theorem exact_of_turn {agenda : Agenda Task} {call' : RankingCall} {results : List Measurement}
    {time : Nat} (sound : Sound r) (known : r.rankings[c]? = some call) (open' : call.isOver = false)
    (turn : RankingTurn { r with agenda } c call r') (known' : r'.rankings[c]? = some call')
    (stage : call'.stage = .returned results time) :
    time = r'.agenda.now ∧ (call'.cancelled = false → Exact r' call'.candidates results) := by
  cases turn with
  | breaks sets stage' many =>
      have rankings : _ = r.rankings := (rankings_of_sets sets :)
      rw [ranking_of_set known rankings known'] at stage
      cases stage
  | @pauses before mid misses sets going few =>
      have enlists := enlists_spawnAll call.domain (.ranking c) (misses.take mid.permits) before
      have rankings : _ = r.rankings := enlists.rankings.trans (rankings_of_sets sets :)
      rw [ranking_of_set known rankings known'] at stage
      cases stage
  | @joins before mid misses sets going enough busy =>
      have enlists := enlists_spawnAll call.domain (.ranking c) misses before
      have rankings : _ = r.rankings := enlists.rankings.trans (rankings_of_sets sets :)
      rw [ranking_of_set known rankings known'] at stage
      cases stage
  | @returns before mid misses sets over' =>
      have rankings : before.rankings = r.rankings := (rankings_of_sets sets :)
      have same := ranking_of_set known rankings known'
      rw [same] at stage
      cases stage
      refine ⟨rfl, fun going => ?_⟩
      rw [same] at going
      have uncancelled : call.cancelled = false := (sets_cancelled sets).symm.trans going
      obtain ⟨none', idle⟩ := over'.resolve_left (by simp [uncancelled])
      have exact' := exact_of_sets sound known sets none' idle
      rw [same, (sets_candidates sets : mid.candidates = call.candidates)]
      exact exact'
  | idle over' => simp [open'] at over'

/-- With this act the ranking of some candidates returns these results at this time, and the exact
ones if it was not cancelled. -/
structure Returns (r : Ranker σ) (act : Act σ) (c : Nat) (candidates : List String)
    (results : List Measurement) (time : Nat) : Prop where
  pending : ∃ call, r.rankings[c]? = some call ∧ call.isOver = false
  returned : ∃ call, (r.perform act).rankings[c]? = some call ∧ call.stage = .returned results time
  now : time = (r.perform act).agenda.now
  exact' : ∀ call, (r.perform act).rankings[c]? = some call → call.cancelled = false →
    Exact (r.perform act) candidates results

/-- Whatever a ranking has returned, it returned at some moment of the course, and exactly then. -/
theorem returns_of_returned {start : Ranker σ} (sound : Sound start) (empty : start.rankings = [])
    {acts : List (Act σ)} (plain : ∀ order ∈ requested acts, Plain order.2)
    (known : (start.after acts).rankings[c]? = some call) {results : List Measurement} {time : Nat}
    (stage : call.stage = .returned results time) :
    ∃ front act back, acts = front ++ act :: back ∧
      Returns (start.after front) act c call.candidates results time := by
  induction acts using List.reverseRecOn generalizing call with
  | nil =>
      have nothing : start.rankings[c]? = some call := known
      rw [empty] at nothing
      cases nothing
  | append_singleton acts act ih =>
      rw [requested_append] at plain
      have plain' : ∀ order ∈ requested acts, Plain order.2 := fun order member =>
        plain order (List.mem_append_left _ member)
      have sound' := sound_after sound plain'
      rw [after_concat] at known
      cases passage_perform sound'.boarded act known with
      | @beside old before beside =>
          -- it had returned before this act, and so in the course before
          obtain ⟨front, act', back, shape, returns⟩ := ih plain' before (beside.stage.symm.trans stage)
          rw [← beside.candidates] at returns
          exact ⟨front, act', back ++ [act], by rw [shape]; simp, returns⟩
      | enters new shape jobs called =>
          rw [shape] at stage
          cases stage
      | turns isTurn popped before open' turn =>
          obtain ⟨now, exact'⟩ := exact_of_turn sound' before open' turn known stage
          refine ⟨acts, act, [], rfl, ⟨_, before, open'⟩, ⟨call, known, stage⟩, now, ?_⟩
          intro other at' going
          have same : other = call := Option.some.inj (at'.symm.trans known)
          subst same
          exact exact' going

/-- Left alone, a ranker comes to have returned all that was asked of it. -/
theorem returned_eventually (sound : Sound r) (limited : jobLimit r.settings ≤ permitLimit) :
    ∃ steps, ∀ (c : Nat) (call : RankingCall),
      (r.after (alone steps r)).rankings[c]? = some call →
      ∃ results time, call.stage = .returned results time := by
  obtain ⟨steps, quiet⟩ := quiet_eventually r sound.boarded
  refine ⟨steps, fun c call known => ?_⟩
  have later : Sound (r.after (alone steps r)) := sound_after sound fun order member => by
    rw [requested_alone] at member
    cases member
  have over' := over_of_quiet later.boarded later.accounted quiet known
  have seated := later.accounted.seated c call id known
  unfold Seated at seated
  unfold RankingCall.isOver at over'
  cases stage : call.stage with
  | returned results time => exact ⟨results, time, rfl⟩
  | broken =>
      rw [stage, settings_after] at seated
      exact absurd seated (Nat.not_lt.mpr limited)
  | _ => simp [stage] at over'

end Returning

section Exactness

/-- No candidate is lost, invented or repeated. After any course of a ranker, and however long it is
left alone then, each ranking that was asked for comes to return; and what it returned, it returned
with one act of the course: if it was not cancelled by then, the first candidates up to the limit,
each as often as it occurs there, in ascending order of score and address for the histories and the
time of day of that moment. -/
theorem exact_ranking (settings : Settings) (base : String) (disk : Disk) (prober : Prober σ)
    (memory : σ) (clock : WallClock) (limited : settings.normalized.concurrency ≤ permitLimit)
    (acts : List (Act σ)) (plain : ∀ order ∈ requested acts, Plain order.2) (c : Nat)
    (candidates : List String) (domain : String)
    (asked : (requested acts)[c]? = some (candidates, domain)) :
    let start := make settings base disk prober memory clock
    let course (steps : Nat) := acts ++ alone steps (start.after acts)
    (∃ steps call results time, (start.after (course steps)).rankings[c]? = some call ∧
      call.stage = .returned results time) ∧
    ∀ steps call results time, (start.after (course steps)).rankings[c]? = some call →
      call.stage = .returned results time →
      ∃ front act back, course steps = front ++ act :: back ∧
        Returns (start.after front) act c candidates results time := by
  intro start course
  have sound : Sound start := sound_make ..
  have nothing : start.rankings = [] := rfl
  -- Turns ask for nothing, so the rankings of the course are those of its acts.
  have orders (steps : Nat) : requested (course steps) = requested acts := by
    rw [requested_append, requested_alone, List.append_nil]
  have known (steps : Nat) : ∃ call, (start.after (course steps)).rankings[c]? = some call ∧
      call.order = (candidates, domain) := by
    have listed := orders_after start (course steps)
    rw [nothing, List.map_nil, List.nil_append, orders] at listed
    rw [← listed, List.getElem?_map] at asked
    exact Option.map_eq_some_iff.mp asked
  constructor
  · have limit : jobLimit (start.after acts).settings ≤ permitLimit := by
      rw [settings_after]
      exact Nat.max_le.mpr ⟨limited, by decide⟩
    obtain ⟨steps, all⟩ := returned_eventually (sound_after sound plain) limit
    obtain ⟨call, at', -⟩ := known steps
    have later : (start.after (course steps)) =
        (start.after acts).after (alone steps (start.after acts)) := after_append ..
    obtain ⟨results, time, stage⟩ := all c call (later ▸ at')
    exact ⟨steps, call, results, time, at', stage⟩
  · intro steps call results time at' stage
    have plain' : ∀ order ∈ requested (course steps), Plain order.2 := by
      rw [orders]
      exact plain
    obtain ⟨front, act, back, shape, returns⟩ := returns_of_returned sound nothing plain' at' stage
    obtain ⟨same, at'', order⟩ := known steps
    have mine : same = call := Option.some.inj (at''.symm.trans at')
    have ranked : call.candidates = candidates := mine ▸ congrArg Prod.fst order
    exact ⟨front, act, back, shape, ranked ▸ returns⟩

/-- Two rankings side by side share the measurement of a pair; the first, which names the address
twice, still comes to return it twice. -/
theorem exact_ranking_of_repeated :
    let scripts := Scripts.direct .empty "10.0.0.2" { usual := some ⟨5, some ⟨20, .tls⟩⟩ }
    let start := make {} "" .empty Scripts.prober scripts ⟨0⟩
    let acts : List (Act Scripts) :=
      [.request ["10.0.0.2", "10.0.0.1", "10.0.0.2"] "example" 0 none,
        .request ["10.0.0.2"] "example" 1 (some 1)]
    let course (steps : Nat) := acts ++ alone steps (start.after acts)
    ∃ steps call results time, (start.after (course steps)).rankings[0]? = some call ∧
      call.stage = .returned results time ∧ ∃ front act back, course steps = front ++ act :: back ∧
        Returns (start.after front) act 0 ["10.0.0.2", "10.0.0.1", "10.0.0.2"] results time := by
  intro scripts start acts course
  obtain ⟨⟨steps, call, results, time, known, stage⟩, moments⟩ :=
    exact_ranking {} "" .empty Scripts.prober scripts ⟨0⟩ (by decide) acts
      (by simp [acts, requested, Plain]) 0 ["10.0.0.2", "10.0.0.1", "10.0.0.2"] "example" rfl
  exact ⟨steps, call, results, time, known, stage, moments steps call results time known stage⟩

end Exactness

end Ranker

end LatencyRank
