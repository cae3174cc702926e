import Mathlib
import LatencyRank.Proofs.Schedule.Agenda

/-!
An agenda as far as it concerns some of its tasks. Whatever is entered for one of these is entered in
the excerpt, and whatever is entered for another task leaves the excerpt as it is. That takes the
sleepers to be in the order of their wakings, as they always are.
-/

namespace LatencyRank.Agenda

variable {α β : Type} [DecidableEq α] [DecidableEq β]

section Orderly

/-- The sleepers are in the order of their wakings, and nobody's waking has passed. -/
structure Orderly (a : Agenda α) : Prop where
  sorted : a.sleeping.Pairwise fun early late => early.1 ≤ late.1
  ahead : ∀ waking ∈ a.sleeping, a.now ≤ waking.1

variable {a : Agenda α}

omit [DecidableEq α] in
theorem sorted_setWaking {wakings : List (Nat × α)}
    (sorted : wakings.Pairwise fun early late => early.1 ≤ late.1) (time : Nat) (task : α) :
    (setWaking time task wakings).Pairwise fun early late => early.1 ≤ late.1 := by
  induction wakings with
  | nil => exact List.pairwise_singleton _ _
  | cons waking rest ih =>
    obtain ⟨first, others⟩ := List.pairwise_cons.mp sorted
    unfold setWaking
    split
    · rename_i early
      refine List.pairwise_cons.mpr ⟨fun other member => ?_, sorted⟩
      rcases List.mem_cons.mp member with rfl | member
      · exact Nat.le_of_lt early
      · exact (Nat.le_of_lt early).trans (first other member)
    · rename_i late
      refine List.pairwise_cons.mpr ⟨fun other member => ?_, ih others⟩
      rw [(setWaking_perm _ _ _).mem_iff, List.mem_cons] at member
      rcases member with rfl | member
      · exact Nat.not_lt.mp late
      · exact first other member

omit [DecidableEq α] in
theorem orderly_empty : Orderly ({} : Agenda α) := ⟨.nil, fun _ member => (by cases member)⟩

theorem Orderly.wake (orderly : Orderly a) (task : α) : Orderly (a.wake task) := by
  refine ⟨?_, ?_⟩
  · rw [sleeping_wake]
    exact orderly.sorted
  · rw [sleeping_wake, now_wake]
    exact orderly.ahead

theorem Orderly.wakeAll (orderly : Orderly a) (tasks : List α) : Orderly (a.wakeAll tasks) := by
  refine ⟨?_, ?_⟩
  · rw [sleeping_wakeAll]
    exact orderly.sorted
  · rw [sleeping_wakeAll, now_wakeAll]
    exact orderly.ahead

theorem Orderly.wakeAfter (orderly : Orderly a) (delay : Nat) (task : α) :
    Orderly (a.wakeAfter delay task) := by
  unfold Agenda.wakeAfter
  split
  · exact orderly.wake task
  · refine ⟨sorted_setWaking orderly.sorted _ task, fun waking member => ?_⟩
    rw [wakeAt, (setWaking_perm _ _ _).mem_iff, List.mem_cons] at member
    rcases member with rfl | member
    · exact Nat.le_add_right _ _
    · exact orderly.ahead waking member

theorem Orderly.enter (orderly : Orderly a) (alarms : List (Nat × α)) : Orderly (a.enter alarms) := by
  unfold Agenda.enter
  induction alarms generalizing a with
  | nil => exact orderly
  | cons alarm rest ih => exact ih (orderly.wakeAfter alarm.1 alarm.2)

theorem Orderly.forget (orderly : Orderly a) (task : α) : Orderly (a.forget task) where
  sorted := orderly.sorted.filter _
  ahead waking member := orderly.ahead waking (List.mem_filter.mp member).1

omit [DecidableEq α] in
theorem Orderly.pop {rest : Agenda α} {task : α} (orderly : Orderly a)
    (popped : a.pop? = some (task, rest)) : Orderly rest := by
  obtain ⟨-, sleeping, now⟩ := pop?_eq_some popped
  exact ⟨sleeping ▸ orderly.sorted, fun waking member => now ▸ orderly.ahead waking (sleeping ▸ member)⟩

theorem Orderly.tick {later : Agenda α} (orderly : Orderly a) (ticked : a.tick? = some later) :
    Orderly later := by
  obtain ⟨time, task, rest, shape, rfl⟩ := tick?_eq_some ticked
  have sorted := orderly.sorted
  rw [shape] at sorted
  obtain ⟨first, others⟩ := List.pairwise_cons.mp sorted
  refine Orderly.wake ⟨others, fun waking member => ?_⟩ task
  exact max_le (orderly.ahead waking (shape ▸ List.mem_cons_of_mem _ member)) (first waking member)

end Orderly

section Excerpt

def excerpt (view : α → Option β) (a : Agenda α) : Agenda β where
  now := a.now
  ready := a.ready.filterMap view
  sleeping := a.sleeping.filterMap fun waking => (view waking.2).map (waking.1, ·)

/-- No two tasks look the same. -/
def Tells (view : α → Option β) : Prop :=
  ∀ task other image, view task = some image → view other = some image → task = other

variable {view : α → Option β} (tells : Tells view) {task : α} {image : β}

omit [DecidableEq α] [DecidableEq β] in
include tells in
theorem mem_ready_excerpt (a : Agenda α) (seen : view task = some image) :
    image ∈ (a.excerpt view).ready ↔ task ∈ a.ready := by
  rw [excerpt, List.mem_filterMap]
  constructor
  · rintro ⟨other, queued, same⟩
    exact tells other task image same seen ▸ queued
  · intro queued
    exact ⟨task, queued, seen⟩

include tells in
theorem excerpt_wake (a : Agenda α) (task : α) :
    (a.wake task).excerpt view = (a.excerpt view).wakeAll (view task).toList := by
  cases seen : view task with
  | none =>
    unfold Agenda.wake
    split
    · rfl
    · simp [excerpt, seen, wakeAll]
  | some image =>
    have queued := mem_ready_excerpt tells a seen
    simp only [Option.toList_some, wakeAll, List.foldl_cons, List.foldl_nil, Agenda.wake, queued]
    split
    · rfl
    · simp [excerpt, seen]

include tells in
theorem excerpt_wakeAll (a : Agenda α) (tasks : List α) :
    (a.wakeAll tasks).excerpt view = (a.excerpt view).wakeAll (tasks.filterMap view) := by
  induction tasks generalizing a with
  | nil => rfl
  | cons task rest ih =>
    have first : a.wakeAll (task :: rest) = (a.wake task).wakeAll rest := rfl
    rw [first, ih, excerpt_wake tells]
    cases seen : view task with
    | none => rw [List.filterMap_cons_none seen]; rfl
    | some image => rw [List.filterMap_cons_some seen]; rfl

omit [DecidableEq β] in
theorem setWaking_of_early {time : Nat} {wakings : List (Nat × β)}
    (early : ∀ waking ∈ wakings, time < waking.1) (image : β) :
    setWaking time image wakings = (time, image) :: wakings := by
  cases wakings with
  | nil => rfl
  | cons waking rest => rw [setWaking, if_pos (early waking List.mem_cons_self)]

omit [DecidableEq α] [DecidableEq β] in
theorem filterMap_setWaking {wakings : List (Nat × α)}
    (sorted : wakings.Pairwise fun early late => early.1 ≤ late.1) (time : Nat)
    (seen : view task = some image) :
    (setWaking time task wakings).filterMap (fun waking => (view waking.2).map (waking.1, ·)) =
      setWaking time image (wakings.filterMap fun waking => (view waking.2).map (waking.1, ·)) := by
  induction wakings with
  | nil => simp [setWaking, seen]
  | cons waking rest ih =>
    obtain ⟨first, others⟩ := List.pairwise_cons.mp sorted
    rw [setWaking]
    split
    · rename_i early
      -- everything that is behind wakes later too, so that the place is the first one in the excerpt
      rw [setWaking_of_early, List.filterMap_cons_some (by rw [seen]; rfl)]
      intro other member
      obtain ⟨source, listed, same⟩ := List.mem_filterMap.mp member
      obtain ⟨_, -, rfl⟩ := Option.map_eq_some_iff.mp same
      rcases List.mem_cons.mp listed with rfl | listed
      · exact early
      · exact Nat.lt_of_lt_of_le early (first source listed)
    · rename_i late
      cases here : view waking.2 with
      | none => rw [List.filterMap_cons_none (by rw [here]; rfl), List.filterMap_cons_none
          (by rw [here]; rfl), ih others]
      | some shown =>
        rw [List.filterMap_cons_some (by rw [here]; rfl), List.filterMap_cons_some (by rw [here]; rfl),
          ih others, setWaking, if_neg late]

omit [DecidableEq α] [DecidableEq β] in
theorem filterMap_setWaking_of_none (wakings : List (Nat × α)) (time : Nat)
    (unseen : view task = none) :
    (setWaking time task wakings).filterMap (fun waking => (view waking.2).map (waking.1, ·)) =
      wakings.filterMap fun waking => (view waking.2).map (waking.1, ·) := by
  induction wakings with
  | nil => simp [setWaking, unseen]
  | cons waking rest ih =>
    rw [setWaking]
    split
    · rw [List.filterMap_cons_none (by rw [unseen]; rfl)]
    · rw [List.filterMap_cons, List.filterMap_cons, ih]

include tells in
theorem excerpt_wakeAfter {a : Agenda α} (orderly : Orderly a) (delay : Nat)
    (seen : view task = some image) :
    (a.wakeAfter delay task).excerpt view = (a.excerpt view).wakeAfter delay image := by
  unfold wakeAfter
  split
  · rw [excerpt_wake tells, seen]
    rfl
  · simp only [wakeAt, excerpt, filterMap_setWaking orderly.sorted _ seen]

include tells in
theorem excerpt_wakeAfter_of_none (a : Agenda α) (delay : Nat) (unseen : view task = none) :
    (a.wakeAfter delay task).excerpt view = a.excerpt view := by
  unfold wakeAfter
  split
  · rw [excerpt_wake tells, unseen]
    rfl
  · simp only [wakeAt, excerpt, filterMap_setWaking_of_none _ _ unseen]

include tells in
theorem excerpt_enter {a : Agenda α} (orderly : Orderly a) (alarms : List (Nat × α)) :
    (a.enter alarms).excerpt view =
      (a.excerpt view).enter (alarms.filterMap fun alarm => (view alarm.2).map (alarm.1, ·)) := by
  induction alarms generalizing a with
  | nil => rfl
  | cons alarm rest ih =>
    have first : a.enter (alarm :: rest) = (a.wakeAfter alarm.1 alarm.2).enter rest := rfl
    rw [first, ih (orderly.wakeAfter _ _)]
    cases seen : view alarm.2 with
    | none =>
      rw [excerpt_wakeAfter_of_none tells _ _ seen, List.filterMap_cons_none (by rw [seen]; rfl)]
    | some image =>
      rw [excerpt_wakeAfter tells orderly _ seen, List.filterMap_cons_some (by rw [seen]; rfl)]
      rfl

/-- Sorting out before or after looking is the same, if what is looked at tells which to sort out. -/
theorem filterMap_filter_of_seen {γ δ : Type} {look : γ → Option δ} {keep : γ → Bool} {keep' : δ → Bool}
    (same : ∀ item shown, look item = some shown → keep item = keep' shown) (items : List γ) :
    (items.filter keep).filterMap look = (items.filterMap look).filter keep' := by
  induction items with
  | nil => rfl
  | cons item rest ih =>
    cases seen : look item with
    | none =>
      rw [List.filterMap_cons_none seen, ← ih, List.filter_cons]
      split
      · exact List.filterMap_cons_none seen
      · rfl
    | some shown =>
      rw [List.filterMap_cons_some seen, List.filter_cons, List.filter_cons, ← same item shown seen,
        ← ih]
      split
      · exact List.filterMap_cons_some seen
      · rfl

include tells in
theorem excerpt_forget (a : Agenda α) (seen : view task = some image) :
    (a.forget task).excerpt view = (a.excerpt view).forget image := by
  have other (candidate : α) (shown : β) (here : view candidate = some shown) :
      decide (candidate ≠ task) = decide (shown ≠ image) := by
    rw [decide_eq_decide, Ne, Ne, not_iff_not]
    constructor
    · rintro rfl
      exact Option.some.inj (here.symm.trans seen)
    · rintro rfl
      exact tells candidate task shown here seen
  unfold excerpt forget
  congr 1
  · exact filterMap_filter_of_seen other a.ready
  · refine filterMap_filter_of_seen (fun waking shown here => ?_) a.sleeping
    obtain ⟨shown', here', rfl⟩ := Option.map_eq_some_iff.mp here
    exact other waking.2 shown' here'

omit [DecidableEq β] in
theorem excerpt_forget_of_none (a : Agenda α) (unseen : view task = none) :
    (a.forget task).excerpt view = a.excerpt view := by
  have other (candidate : α) (shown : β) (here : view candidate = some shown) :
      decide (candidate ≠ task) = true := by
    refine decide_eq_true ?_
    rintro rfl
    rw [unseen] at here
    cases here
  have asleep (waking : Nat × α) (shown : Nat × β)
      (here : (view waking.2).map (waking.1, ·) = some shown) : decide (waking.2 ≠ task) = true := by
    obtain ⟨shown', here', -⟩ := Option.map_eq_some_iff.mp here
    exact other waking.2 shown' here'
  unfold excerpt forget
  congr 1
  · rw [filterMap_filter_of_seen other, List.filter_true]
  · rw [filterMap_filter_of_seen asleep, List.filter_true]

end Excerpt

section Turns

variable {view : α → Option β} {a : Agenda α} {task : α} {image : β}

omit [DecidableEq α] [DecidableEq β] in
theorem pop?_excerpt {rest : Agenda α} (popped : a.pop? = some (task, rest))
    (seen : view task = some image) :
    (a.excerpt view).pop? = some (image, rest.excerpt view) := by
  obtain ⟨shape, sleeping, now⟩ := pop?_eq_some popped
  have ready : (a.excerpt view).ready = image :: rest.ready.filterMap view := by
    rw [excerpt, shape, List.filterMap_cons_some seen]
  rw [pop?_of_ready ready, excerpt, excerpt, sleeping, now]

omit [DecidableEq α] [DecidableEq β] in
theorem excerpt_pop_of_none {rest : Agenda α} (popped : a.pop? = some (task, rest))
    (unseen : view task = none) : rest.excerpt view = a.excerpt view := by
  obtain ⟨shape, sleeping, now⟩ := pop?_eq_some popped
  rw [excerpt, excerpt, sleeping, now, shape, List.filterMap_cons_none unseen]

theorem tick?_of_sleeping {time : Nat} {rest : List (Nat × α)} (shape : a.sleeping = (time, task) :: rest) :
    a.tick? = some (({ a with now := max a.now time, sleeping := rest } : Agenda α).wake task) := by
  unfold tick?
  rw [shape]

theorem excerpt_tick_of_none (tells : Tells view) {time : Nat} {rest : List (Nat × α)}
    (shape : a.sleeping = (time, task) :: rest) (unseen : view task = none) :
    (({ a with now := max a.now time, sleeping := rest } : Agenda α).wake task).excerpt view =
      { a.excerpt view with now := max a.now time } := by
  rw [excerpt_wake tells, unseen]
  simp [excerpt, wakeAll, shape, unseen]

/-- Time moves on for somebody in view. It does not matter then how late the clock of the excerpt is. -/
theorem tick?_excerpt (tells : Tells view) (orderly : Orderly a) {time : Nat} {rest : List (Nat × α)}
    (shape : a.sleeping = (time, task) :: rest) (seen : view task = some image) {now : Nat}
    (late : now ≤ a.now) :
    ({ a.excerpt view with now } : Agenda β).tick? =
      some ((({ a with now := max a.now time, sleeping := rest } : Agenda α).wake task).excerpt view) := by
  have ahead : a.now ≤ time := orderly.ahead (time, task) (shape ▸ List.mem_cons_self)
  have sleeping : (a.excerpt view).sleeping =
      (time, image) :: rest.filterMap fun waking => (view waking.2).map (waking.1, ·) := by
    rw [excerpt, shape, List.filterMap_cons_some (by rw [seen]; rfl)]
  have ticked := tick?_of_sleeping (a := { a.excerpt view with now }) sleeping
  simp only [Nat.max_eq_right (late.trans ahead)] at ticked
  rw [ticked, excerpt_wake tells, seen, Nat.max_eq_right ahead]
  rfl

end Turns

end LatencyRank.Agenda
