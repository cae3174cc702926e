import Mathlib
import LatencyRank.Ranker.Session
import LatencyRank.Proofs.Ranker.Guard
import LatencyRank.Proofs.Ranker.Fuel

/-!
Waiting for the refreshes. A session lets its rankers go on until no refresh of the one in use is live;
its fuel is enough for that. If no ranking of it goes on beside, nothing is being refreshed then.
-/

namespace LatencyRank

namespace Ranker

variable {σ : Type}

section Reached

/-- A ranker as a session can hold it: a new one, after any acts, with the session's time, clock,
memory and a journal of its own. -/
inductive Reached : Ranker σ → Prop
  | made (settings : Settings) (base : String) (disk : Disk) (prober : Prober σ) (memory : σ)
      (clock : WallClock) : Reached (make settings base disk prober memory clock)
  | acts {r : Ranker σ} (reached : Reached r) (act : Act σ) : Reached (r.perform act)
  | tuned {r : Ranker σ} (reached : Reached r) (now : Nat) (clock : WallClock) (memory : σ)
      (journal : List RankerEvent) :
      Reached { r with agenda := { r.agenda with now }, clock, memory, journal }

/-- What the wait for the refreshes builds on: jobs agree with the flights and the agenda, nobody has more
left to do than at its start, and the list of refreshes tells which are live. -/
structure WaitInvariant (r : Ranker σ) : Prop where
  boarded : Boarded r.flights r.agenda r.jobs
  modest : Modest r
  guarded : Guarded r

variable {r r' : Ranker σ}

theorem WaitInvariant.perform (invariant : WaitInvariant r) (act : Act σ) :
    WaitInvariant (r.perform act) where
  boarded := boarded_perform r act invariant.boarded
  modest := invariant.modest.perform invariant.boarded act
  guarded := guarded_perform invariant.boarded invariant.guarded act

theorem WaitInvariant.tuned (invariant : WaitInvariant r) (now : Nat) (clock : WallClock) (memory : σ)
    (journal : List RankerEvent) :
    WaitInvariant { r with agenda := { r.agenda with now }, clock, memory, journal } where
  boarded := invariant.boarded.recalled fun _ => rfl
  modest := ⟨invariant.modest.jobs, invariant.modest.rankings⟩
  guarded := invariant.guarded.congr rfl fun _ => rfl

theorem Reached.waitInvariant (reached : Reached r) : WaitInvariant r := by
  induction reached with
  | made settings base disk prober memory clock =>
    exact ⟨boarded_nothing fun _ => rfl, modest_make .., guarded_make ..⟩
  | acts reached act ih => exact ih.perform act
  | tuned reached now clock memory journal ih => exact ih.tuned now clock memory journal

end Reached

section GoingOn

/-- The second ranker is the first after turns and ticks in a session. -/
inductive GoesOn (r : Ranker σ) : Ranker σ → Prop
  | same : GoesOn r r
  | turn {r' : Ranker σ} (on : GoesOn r r') : GoesOn r (r'.perform .turn)
  | tick {r' : Ranker σ} (on : GoesOn r r') : GoesOn r (r'.perform .tick)
  | tuned {r' : Ranker σ} (on : GoesOn r r') (now : Nat) (clock : WallClock) (memory : σ)
      (journal : List RankerEvent) :
      GoesOn r { r' with agenda := { r'.agenda with now }, clock, memory, journal }

variable {r r' r'' : Ranker σ}

theorem GoesOn.trans (early : GoesOn r r') (late : GoesOn r' r'') : GoesOn r r'' := by
  induction late with
  | same => exact early
  | turn on ih => exact ih.turn
  | tick on ih => exact ih.tick
  | tuned on now clock memory journal ih => exact ih.tuned now clock memory journal

theorem goesOn_turns (count : Nat) : GoesOn r (r.after (turns count)) := by
  induction count with
  | zero => exact .same
  | succ count ih =>
    rw [turns, List.replicate_succ', after_append]
    exact ih.turn

theorem GoesOn.waitInvariant (on : GoesOn r r') (invariant : WaitInvariant r) : WaitInvariant r' := by
  induction on with
  | same => exact invariant
  | turn on ih => exact ih.perform .turn
  | tick on ih => exact ih.perform .tick
  | tuned on now clock memory journal ih => exact ih.tuned now clock memory journal

theorem wakings_perform_tick (r : Ranker σ) : (r.perform .tick).wakings ≤ r.wakings := by
  simp only [perform, tick?]
  cases ticked : r.agenda.tick? with
  | none => exact Nat.le_refl _
  | some later => exact Nat.le_of_lt (wakings_tick ticked)

theorem GoesOn.wakings_le (on : GoesOn r r') (invariant : WaitInvariant r) : r'.wakings ≤ r.wakings := by
  induction on with
  | same => exact Nat.le_refl _
  | turn on ih => exact (wakings_turn (on.waitInvariant invariant).boarded).trans ih
  | tick on ih => exact (wakings_perform_tick _).trans ih
  | tuned on now clock memory journal ih => exact ih

theorem ended_perform (boarded : Boarded r.flights r.agenda r.jobs)
    (ended : ∀ call ∈ r.rankings, call.isOver = true) {act : Act σ} (own : requested [act] = []) :
    ∀ call ∈ (r.perform act).rankings, call.isOver = true := by
  intro call' member
  obtain ⟨c, known'⟩ := List.mem_iff_getElem?.mp member
  cases passage_perform boarded act known' with
  | @beside call known beside =>
    rw [isOver_of_stage beside.stage]
    exact ended call (List.mem_of_getElem? known)
  | enters new shape jobs called =>
    have inside := (List.getElem?_eq_some_iff.mp known').1
    rw [length_rankings_perform, own, List.length_nil] at inside
    omega
  | @turns agenda call isTurn popped known open' turn =>
    rw [ended call (List.mem_of_getElem? known)] at open'
    cases open'

theorem refreshing_turn (ended : ∀ call ∈ r.rankings, call.isOver = true) (none' : r.refreshing = [])
    (turn : Turn r r') : r'.refreshing = [] := by
  have struck (job : Job) : refreshingAfter r.refreshing job = [] := by
    unfold refreshingAfter
    rw [none']
    split <;> rfl
  cases turn with
  | ofJob popped known turn =>
    cases turn with
    | concludes begins news memory attempts reported took all => exact struck _
    | givesUp begins news memory attempts reported failed => exact struck _
    | ends stage =>
      rw [finish_eq]
      exact struck _
    | _ => exact none'
  | ofRanking popped known turn =>
    cases same_of_over (ended _ (List.mem_of_getElem? known)) turn
    exact none'
  | _ => exact none'

/-- Every ranking is over, and nothing is being refreshed. -/
structure Calm (r : Ranker σ) : Prop where
  ended : ∀ call ∈ r.rankings, call.isOver = true
  refreshing : r.refreshing = []

theorem GoesOn.ended (on : GoesOn r r') (invariant : WaitInvariant r)
    (ended : ∀ call ∈ r.rankings, call.isOver = true) : ∀ call ∈ r'.rankings, call.isOver = true := by
  induction on with
  | same => exact ended
  | turn on ih => exact ended_perform (on.waitInvariant invariant).boarded ih rfl
  | tick on ih => exact ended_perform (on.waitInvariant invariant).boarded ih rfl
  | tuned on now clock memory journal ih => exact ih

theorem GoesOn.calm (on : GoesOn r r') (invariant : WaitInvariant r) (calm : Calm r) : Calm r' := by
  refine ⟨on.ended invariant calm.ended, ?_⟩
  induction on with
  | same => exact calm.refreshing
  | turn on ih => exact refreshing_turn (on.ended invariant calm.ended) ih (turn_perform _)
  | @tick later on ih =>
    simp only [perform, tick?]
    cases later.agenda.tick? <;> exact ih
  | tuned on now clock memory journal ih => exact ih

end GoingOn

end Ranker

namespace Session

open Ranker

variable {σ : Type}

section Rankers

def tune (s : Session σ) (r : Ranker σ) : Ranker σ :=
  { r with agenda := { r.agenda with now := s.time }, clock := s.clock, memory := s.memory, journal := [] }

theorem rankers_onRanker (s : Session σ) (index : Nat) (act : Ranker σ → Ranker σ) :
    (s.onRanker index act).rankers = s.rankers.modify index fun r => act (s.tune r) := by
  unfold onRanker
  cases known : s.rankers[index]? with
  | none => rw [List.modify_eq_self (List.getElem?_eq_none_iff.mp known)]
  | some r =>
    rw [modify_of_getElem? known]
    rfl

theorem inUse_onRanker (s : Session σ) (index : Nat) (act : Ranker σ → Ranker σ) :
    (s.onRanker index act).inUse = s.inUse := by
  unfold onRanker
  cases s.rankers[index]? <;> rfl

/-- Each ranker of the session goes on by itself. -/
structure GoesOn (s s' : Session σ) : Prop where
  rankers : List.Forall₂ Ranker.GoesOn s.rankers s'.rankers
  inUse : s'.inUse = s.inUse

def WaitInvariant (s : Session σ) : Prop := ∀ r ∈ s.rankers, r.WaitInvariant

def wakings (s : Session σ) : Nat := totalOf Ranker.wakings s.rankers

variable {s s' s'' : Session σ}

theorem GoesOn.refl (s : Session σ) : GoesOn s s :=
  ⟨List.forall₂_same.mpr fun _ _ => .same, rfl⟩

theorem GoesOn.trans (early : GoesOn s s') (late : GoesOn s' s'') : GoesOn s s'' where
  rankers := by
    obtain ⟨long, first⟩ := List.forall₂_iff_get.mp early.rankers
    obtain ⟨long', second⟩ := List.forall₂_iff_get.mp late.rankers
    refine List.forall₂_iff_get.mpr ⟨long.trans long', fun index inside inside' => ?_⟩
    have between : index < s'.rankers.length := long ▸ inside
    exact (first index inside between).trans (second index between inside')
  inUse := late.inUse.trans early.inUse

theorem GoesOn.waitInvariant (on : GoesOn s s') (invariant : s.WaitInvariant) : s'.WaitInvariant := by
  obtain ⟨long, each⟩ := List.forall₂_iff_get.mp on.rankers
  intro r member
  obtain ⟨index, inside, rfl⟩ := List.getElem_of_mem member
  have inside' : index < s.rankers.length := long ▸ inside
  exact (each index inside' inside).waitInvariant (invariant _ (List.getElem_mem inside'))

theorem GoesOn.wakings_le (on : GoesOn s s') (invariant : s.WaitInvariant) : s'.wakings ≤ s.wakings := by
  have fewer : List.Forall₂ (fun r' r => r'.wakings ≤ r.wakings) s'.rankers s.rankers :=
    (((List.forall₂_and_left _ _).mpr ⟨invariant, on.rankers⟩).imp fun _ _ goes =>
      goes.2.wakings_le goes.1).flip
  rw [wakings, wakings, totalOf_eq_sum, totalOf_eq_sum]
  exact (List.forall₂_map_left_iff.mpr (List.forall₂_map_right_iff.mpr fewer)).sum_le_sum

theorem goesOn_modify {rankers : List (Ranker σ)} {index : Nat} {change : Ranker σ → Ranker σ}
    (on : ∀ r, rankers[index]? = some r → Ranker.GoesOn r (change r)) :
    List.Forall₂ Ranker.GoesOn rankers (rankers.modify index change) := by
  refine List.forall₂_iff_get.mpr ⟨(List.length_modify ..).symm, fun other inside inside' => ?_⟩
  simp only [List.get_eq_getElem, List.getElem_modify]
  split
  · rename_i same
    exact on _ (same ▸ List.getElem?_eq_getElem inside)
  · exact .same

theorem goesOn_onRanker {index : Nat} {act : Ranker σ → Ranker σ}
    (on : ∀ r, s.rankers[index]? = some r → Ranker.GoesOn (s.tune r) (act (s.tune r))) :
    GoesOn s (s.onRanker index act) where
  rankers := by
    rw [rankers_onRanker]
    exact goesOn_modify fun r known =>
      (Ranker.GoesOn.same.tuned s.time s.clock s.memory []).trans (on r known)
  inUse := inUse_onRanker s index act

end Rankers

section Settling

variable {s s' : Session σ}

theorem settle_eq {r : Ranker σ} (boarded : Boarded r.flights r.agenda r.jobs) :
    Ranker.GoesOn r r.settle ∧ r.settle.agenda.ready = [] := by
  obtain ⟨count, same, ends⟩ := turnsUntil_eq (fun _ => false) boarded (Nat.le_refl r.work)
  rw [Ranker.settle, same]
  exact ⟨goesOn_turns count, ends.resolve_left (by simp)⟩

theorem settleUntil_eq {r : Ranker σ} (stop : Ranker σ → Bool)
    (boarded : Boarded r.flights r.agenda r.jobs) : Ranker.GoesOn r (r.settleUntil stop) := by
  obtain ⟨count, same, -⟩ := turnsUntil_eq stop boarded (Nat.le_refl r.work)
  rw [settleUntil, same]
  exact goesOn_turns count

theorem WaitInvariant.tune (invariant : s.WaitInvariant) {index : Nat} {r : Ranker σ}
    (known : s.rankers[index]? = some r) : (s.tune r).WaitInvariant :=
  (invariant r (List.mem_of_getElem? known)).tuned _ _ _ _

/-- Once all rankers have settled, one after the other, none can go on at that instant. -/
theorem settle_spec (invariant : s.WaitInvariant) :
    GoesOn s s.settle ∧ ∀ r ∈ s.settle.rankers, r.agenda.ready = [] := by
  have settled (count : Nat) :
      let s' := (List.range count).foldl (fun s index => s.onRanker index Ranker.settle) s
      GoesOn s s' ∧ ∀ index < count, ∀ r, s'.rankers[index]? = some r → r.agenda.ready = [] := by
    -- on how many have settled: settling the next one leaves those before it as they are
    induction count with
    | zero => exact ⟨.refl s, fun _ none' => absurd none' (Nat.not_lt_zero _)⟩
    | succ count ih =>
      obtain ⟨on, rest⟩ := ih
      rw [List.range_succ, List.foldl_append]
      generalize (List.range count).foldl _ s = before at on rest
      have invariant' := on.waitInvariant invariant
      refine ⟨on.trans (goesOn_onRanker fun r known => (settle_eq (invariant'.tune known).boarded).1), ?_⟩
      intro index inside r known
      rw [List.foldl_cons, List.foldl_nil, rankers_onRanker] at known
      obtain ⟨old, known', ⟨rfl, rfl⟩ | ⟨different, rfl⟩⟩ := getElem?_modified known
      · exact (settle_eq (invariant'.tune known').boarded).2
      · exact rest index (by omega) _ known'
  obtain ⟨on, rest⟩ := settled s.rankers.length
  refine ⟨on, fun r member => ?_⟩
  obtain ⟨index, known⟩ := List.mem_iff_getElem?.mp member
  have inside := (List.getElem?_eq_some_iff.mp known).1
  exact rest index (lt_of_lt_of_eq inside on.rankers.length_eq.symm) r known

end Settling

section Passing

variable {s s' : Session σ} {stop : Ranker σ → Bool} {fuel : Nat}

theorem earlier_eq_none {best other : Option (Nat × Nat)} :
    earlier best other = none ↔ best = none ∧ other = none := by
  cases best <;> cases other <;> simp [earlier]

theorem earlier_eq_some {best other : Option (Nat × Nat)} {waking : Nat × Nat}
    (some' : earlier best other = some waking) : best = some waking ∨ other = some waking := by
  cases best with
  | none => exact Or.inr some'
  | some first =>
    cases other with
    | none => exact Or.inl some'
    | some second =>
      simp only [earlier, Option.some.injEq] at some'
      split at some'
      · exact Or.inr (congrArg some some')
      · exact Or.inl (congrArg some some')

theorem earlierOf_eq_none {wakings : List (Option (Nat × Nat))} :
    wakings.foldl earlier none = none ↔ ∀ waking ∈ wakings, waking = none := by
  induction wakings using List.reverseRecOn with
  | nil => simp
  | append_singleton front last ih =>
    rw [List.foldl_append, List.foldl_cons, List.foldl_nil, earlier_eq_none, ih]
    simp only [List.mem_append, List.mem_singleton]
    exact ⟨fun both waking member => member.elim (both.1 waking) fun same => same ▸ both.2,
      fun all => ⟨fun waking member => all waking (Or.inl member), all last (Or.inr rfl)⟩⟩

theorem mem_of_earlierOf {wakings : List (Option (Nat × Nat))} {waking : Nat × Nat}
    (some' : wakings.foldl earlier none = some waking) : some waking ∈ wakings := by
  induction wakings using List.reverseRecOn with
  | nil => cases some'
  | append_singleton front last ih =>
    rw [List.foldl_append, List.foldl_cons, List.foldl_nil] at some'
    rcases earlier_eq_some some' with first | second
    · exact List.mem_append_left _ (ih first)
    · exact List.mem_append_right _ (List.mem_singleton.mpr second.symm)

theorem asleep_of_tick_none (none' : s.tickUpTo? none = none) :
    ∀ r ∈ s.rankers, r.agenda.sleeping = [] := by
  unfold tickUpTo? at none'
  cases next : s.nextWaking with
  | some waking => simp [next] at none'
  | none =>
    intro r member
    obtain ⟨index, known⟩ := List.mem_iff_getElem?.mp member
    unfold nextWaking at next
    have silent := earlierOf_eq_none.mp next (r.agenda.nextWaking.map (·, index))
      (List.mem_iff_getElem?.mpr ⟨index, by rw [List.getElem?_mapIdx, known]; rfl⟩)
    rw [Option.map_eq_none_iff, Agenda.nextWaking, Option.map_eq_none_iff] at silent
    exact List.head?_eq_none_iff.mp silent

theorem goesOn_of_tick_some (some' : s.tickUpTo? none = some s') :
    GoesOn s s' ∧ s'.wakings < s.wakings := by
  unfold tickUpTo? at some'
  cases next : s.nextWaking with
  | none => simp [next] at some'
  | some waking =>
    obtain ⟨time, index⟩ := waking
    simp only [next, Option.any_none, Bool.false_eq_true, ↓reduceIte, Option.some.injEq] at some'
    unfold nextWaking at next
    obtain ⟨place, known⟩ := List.mem_iff_getElem?.mp (mem_of_earlierOf next)
    rw [List.getElem?_mapIdx, Option.map_eq_some_iff] at known
    obtain ⟨r, known, wakes⟩ := known
    rw [Option.map_eq_some_iff] at wakes
    obtain ⟨time', wakes, same⟩ := wakes
    cases same
    have sleeps : r.agenda.sleeping ≠ [] := by
      intro nobody
      rw [Agenda.nextWaking, nobody] at wakes
      cases wakes
    -- The ranker with the earliest waking ticks, and the others stay as they are.
    obtain ⟨later, ticked⟩ : ∃ later, (s.tune r).agenda.tick? = some later :=
      Option.ne_none_iff_exists'.mp fun none' =>
        sleeps (Agenda.tick?_eq_none (a := (s.tune r).agenda).mp none')
    have moved : (s.tune r).tick?.getD (s.tune r) = { s.tune r with agenda := later } := by
      rw [tick?, ticked]
      rfl
    subst some'
    constructor
    · refine goesOn_onRanker fun other _ => ?_
      exact Ranker.GoesOn.same.tick
    · have total := totalOf_modify Ranker.wakings known fun r => (s.tune r).tick?.getD (s.tune r)
      have fewer : Ranker.wakings { s.tune r with agenda := later } < r.wakings := wakings_tick ticked
      unfold wakings
      rw [rankers_onRanker]
      rw [moved] at total
      change _ = _ + Ranker.wakings { s.tune r with agenda := later } at total
      omega

theorem goesOn_onCurrent (invariant : s.WaitInvariant) (stop : Ranker σ → Bool) :
    GoesOn s (s.onCurrent (Ranker.settleUntil stop)) := by
  unfold onCurrent
  split
  · exact goesOn_onRanker fun r known => settleUntil_eq stop (invariant.tune known).boarded
  · exact .refl s

/-- With enough fuel time passes until the condition holds, or no waking is left once all have
settled. -/
theorem passUntil_spec (stop : Ranker σ → Bool) (invariant : s.WaitInvariant) (enough : s.wakings ≤ fuel) :
    GoesOn s (passUntil stop fuel s) ∧ ((passUntil stop fuel s).current?.all stop = true ∨
      ∀ r ∈ (passUntil stop fuel s).settle.rankers, r.agenda.sleeping = []) := by
  induction fuel generalizing s with
  | zero =>
    have on := goesOn_onCurrent invariant stop
    refine ⟨on, Or.inr fun r member => ?_⟩
    have on' := on.trans (settle_spec (on.waitInvariant invariant)).1
    have fewer := on'.wakings_le invariant
    have own := le_totalOf Ranker.wakings member
    have asleep := sleeping_le_wakings r
    unfold wakings at *
    change totalOf _ (passUntil stop 0 s).settle.rankers ≤ _ at fewer
    exact List.length_eq_zero_iff.mp (by omega)
  | succ fuel ih =>
    have on := goesOn_onCurrent invariant stop
    unfold passUntil
    dsimp only
    generalize s.onCurrent (Ranker.settleUntil stop) = held at on
    split
    · rename_i holds
      exact ⟨on, Or.inl holds⟩
    · have invariant' := on.waitInvariant invariant
      obtain ⟨settles, -⟩ := settle_spec invariant'
      cases ticked : held.settle.tickUpTo? none with
      | none => exact ⟨on, Or.inr (asleep_of_tick_none ticked)⟩
      | some next =>
        have invariant'' := settles.waitInvariant invariant'
        obtain ⟨moves, fewer⟩ := goesOn_of_tick_some ticked
        have less := (on.trans settles).wakings_le invariant
        obtain ⟨on', ends⟩ := ih (moves.waitInvariant invariant'') (by omega)
        exact ⟨(on.trans settles).trans (moves.trans on'), ends⟩

end Passing

section Waiting

variable {s : Session σ} {r : Ranker σ}

theorem mem_of_current (known : s.current? = some r) : r ∈ s.rankers := by
  unfold current? at known
  split at known
  · exact List.mem_of_head? known
  · cases known

theorem GoesOn.current {s' : Session σ} (on : GoesOn s s') (known : s.current? = some r) :
    ∃ r', s'.current? = some r' ∧ Ranker.GoesOn r r' ∧ r' ∈ s'.rankers := by
  unfold current? at known ⊢
  rw [on.inUse]
  split at known
  · rename_i used
    rw [if_pos used]
    have each := on.rankers
    cases rankers : s.rankers with
    | nil => simp [rankers] at known
    | cons first rest =>
      rw [rankers] at each known
      cases known
      generalize s'.rankers = rankers' at each
      cases each with
      | cons on' rest' => exact ⟨_, rfl, on', List.mem_cons_self⟩
  · cases known

theorem wakings_le_horizon (invariant : s.WaitInvariant) : s.wakings ≤ s.horizon := by
  rw [wakings, horizon, totalOf_eq_sum, totalOf_eq_sum]
  exact List.sum_le_sum fun r member => Ranker.wakings_le_horizon (invariant r member).modest

theorem refreshing_eq_nil_iff (guarded : Guarded r) : r.refreshing = [] ↔ r.liveRefreshes = [] := by
  have same := guarded.perm.length_eq
  rw [List.length_map] at same
  rw [← List.length_eq_zero_iff, ← List.length_eq_zero_iff, same]

theorem liveRefreshes_of_quiet (boarded : Boarded r.flights r.agenda r.jobs) (quiet : r.Quiet) :
    r.liveRefreshes = [] := by
  refine List.filter_eq_nil_iff.mpr fun job member => ?_
  obtain ⟨n, known⟩ := List.mem_iff_getElem?.mp member
  simp [done_of_quiet boarded quiet known]

theorem calm_wait (reached : ∀ r ∈ s.rankers, r.Reached)
    (known : (passUntil (fun r => r.liveRefreshes.isEmpty) s.horizon s).current? = some r)
    (ended : ∀ call ∈ r.rankings, call.isOver = true) :
    ∃ r', s.wait.current? = some r' ∧ r'.liveRefreshes = [] ∧ r'.refreshing = [] := by
  have invariant : s.WaitInvariant := fun r member => (reached r member).waitInvariant
  unfold wait
  obtain ⟨on, ends⟩ := passUntil_spec (fun r => r.liveRefreshes.isEmpty) invariant
    (wakings_le_horizon invariant)
  generalize passUntil _ s.horizon s = held at known on ends
  have invariant' := on.waitInvariant invariant
  obtain ⟨settles, rests⟩ := settle_spec invariant'
  obtain ⟨r', known', on', member'⟩ := settles.current known
  have guarded := (settles.waitInvariant invariant' r' member').guarded
  refine ⟨r', known', ?_⟩
  rw [refreshing_eq_nil_iff guarded, and_self]
  rcases ends with stopped | asleep
  · have member := mem_of_current known
    rw [known, Option.all_some, List.isEmpty_iff] at stopped
    have calm : Calm r := ⟨ended, (refreshing_eq_nil_iff (invariant' r member).guarded).mpr stopped⟩
    exact (refreshing_eq_nil_iff guarded).mp (on'.calm (invariant' r member) calm).refreshing
  · exact liveRefreshes_of_quiet (settles.waitInvariant invariant' r' member').boarded
      ⟨rests r' member', asleep r' member'⟩

end Waiting

end Session

end LatencyRank
