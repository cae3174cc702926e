import Mathlib
import LatencyRank.Schedule.WallClock

/-!
What an agenda holds, whether it is due now or asleep. Queueing a task that is queued already adds
nothing, so the queue never holds a task twice on its own account; time never runs back.
-/

namespace LatencyRank.Agenda

variable {α : Type} [DecidableEq α]

/-- Everything that is still to happen, in the queue or asleep. -/
def summons (a : Agenda α) : List α := a.ready ++ a.sleeping.map Prod.snd

section Wake

theorem mem_ready_wake (a : Agenda α) (task other : α) :
    other ∈ (a.wake task).ready ↔ other ∈ a.ready ∨ other = task := by
  unfold wake
  by_cases queued : task ∈ a.ready
  · simp only [queued, ↓reduceIte]
    constructor
    · exact Or.inl
    · rintro (old | rfl)
      · exact old
      · exact queued
  · simp [queued]

@[simp] theorem sleeping_wake (a : Agenda α) (task : α) : (a.wake task).sleeping = a.sleeping := by
  unfold wake
  split <;> rfl

@[simp] theorem now_wake (a : Agenda α) (task : α) : (a.wake task).now = a.now := by
  unfold wake
  split <;> rfl

theorem ready_wake_length (a : Agenda α) (task : α) :
    (a.wake task).ready.length ≤ a.ready.length + 1 := by
  unfold wake
  split
  · exact Nat.le_succ _
  · simp

theorem count_ready_wake (a : Agenda α) (task other : α) :
    (a.wake task).ready.count other =
      a.ready.count other + if task = other ∧ task ∉ a.ready then 1 else 0 := by
  unfold wake
  by_cases queued : task ∈ a.ready
  · simp [queued]
  · by_cases same : task = other
    · subst same
      simp [queued]
    · simp [queued, same]

theorem count_summons (a : Agenda α) (task : α) :
    a.summons.count task = a.ready.count task + (a.sleeping.map Prod.snd).count task :=
  List.count_append

theorem not_mem_ready {a : Agenda α} {task : α} (absent : a.summons.count task = 0) :
    task ∉ a.ready :=
  fun queued => List.count_eq_zero.mp absent (List.mem_append_left _ queued)

theorem count_summons_wake (a : Agenda α) (task other : α) :
    (a.wake task).summons.count other =
      a.summons.count other + if task = other ∧ task ∉ a.ready then 1 else 0 := by
  rw [count_summons, count_summons, count_ready_wake, sleeping_wake]
  omega

theorem count_summons_wake_of_ne (a : Agenda α) {task other : α} (different : task ≠ other) :
    (a.wake task).summons.count other = a.summons.count other := by
  rw [count_summons_wake, if_neg (fun both => different both.1), Nat.add_zero]

theorem count_summons_wake_self (a : Agenda α) {task : α} (absent : a.summons.count task = 0) :
    (a.wake task).summons.count task = 1 := by
  have notQueued := not_mem_ready absent
  rw [count_summons_wake, absent, if_pos ⟨rfl, notQueued⟩]

def wakeAll (a : Agenda α) (tasks : List α) : Agenda α := tasks.foldl wake a

theorem mem_ready_wakeAll (a : Agenda α) (tasks : List α) (other : α) :
    other ∈ (a.wakeAll tasks).ready ↔ other ∈ a.ready ∨ other ∈ tasks := by
  unfold wakeAll
  induction tasks generalizing a with
  | nil => simp
  | cons task rest ih =>
      rw [List.foldl_cons, ih, mem_ready_wake, List.mem_cons, or_assoc]

@[simp] theorem sleeping_wakeAll (a : Agenda α) (tasks : List α) :
    (a.wakeAll tasks).sleeping = a.sleeping := by
  unfold wakeAll
  induction tasks generalizing a with
  | nil => rfl
  | cons task rest ih => rw [List.foldl_cons, ih, sleeping_wake]

@[simp] theorem now_wakeAll (a : Agenda α) (tasks : List α) : (a.wakeAll tasks).now = a.now := by
  unfold wakeAll
  induction tasks generalizing a with
  | nil => rfl
  | cons task rest ih => rw [List.foldl_cons, ih, now_wake]

theorem mem_summons_wakeAll {a : Agenda α} {task : α} (summoned : task ∈ a.summons) (tasks : List α) :
    task ∈ (a.wakeAll tasks).summons := by
  rw [summons, List.mem_append, mem_ready_wakeAll, sleeping_wakeAll]
  rw [summons, List.mem_append] at summoned
  exact summoned.imp_left Or.inl

theorem ready_wakeAll_length (a : Agenda α) (tasks : List α) :
    (a.wakeAll tasks).ready.length ≤ a.ready.length + tasks.length := by
  unfold wakeAll
  induction tasks generalizing a with
  | nil => exact Nat.le_refl _
  | cons task rest ih =>
      have tail := ih (a.wake task)
      have head := ready_wake_length a task
      rw [List.foldl_cons, List.length_cons]
      omega

theorem ready_wakeAll_append (a : Agenda α) (tasks : List α) :
    ∃ new, (a.wakeAll tasks).ready = a.ready ++ new := by
  unfold wakeAll
  induction tasks generalizing a with
  | nil => exact ⟨[], (List.append_nil _).symm⟩
  | cons task rest ih =>
      obtain ⟨new, shape⟩ := ih (a.wake task)
      rw [List.foldl_cons, shape]
      unfold wake
      split
      · exact ⟨new, rfl⟩
      · exact ⟨task :: new, List.append_assoc _ _ _⟩

theorem count_summons_wakeAll (a : Agenda α) (tasks : List α) (other : α) :
    (a.wakeAll tasks).summons.count other =
      a.summons.count other + if other ∈ tasks ∧ other ∉ a.ready then 1 else 0 := by
  unfold wakeAll
  induction tasks generalizing a with
  | nil => simp
  | cons task rest ih =>
      rw [List.foldl_cons, ih, count_summons_wake]
      by_cases same : task = other
      · subst same
        by_cases queued : task ∈ a.ready <;> simp [mem_ready_wake, queued]
      · have different : ¬other = task := fun h => same h.symm
        simp [mem_ready_wake, same, different]

end Wake

section Sleep

omit [DecidableEq α] in
theorem setWaking_perm (time : Nat) (task : α) (wakings : List (Nat × α)) :
    (setWaking time task wakings).Perm ((time, task) :: wakings) := by
  induction wakings with
  | nil => exact List.Perm.refl _
  | cons waking rest ih =>
      unfold setWaking
      split
      · exact List.Perm.refl _
      · exact (ih.cons waking).trans (List.Perm.swap _ _ _)

theorem ready_wakeAfter (a : Agenda α) {delay : Nat} (task : α) (positive : 0 < delay) :
    (a.wakeAfter delay task).ready = a.ready := by
  rw [wakeAfter, if_neg (Nat.ne_of_gt positive)]
  rfl

theorem now_wakeAfter (a : Agenda α) (delay : Nat) (task : α) :
    (a.wakeAfter delay task).now = a.now := by
  unfold wakeAfter
  split
  · exact now_wake a task
  · rfl

theorem mem_sleeping_wakeAfter (a : Agenda α) {delay : Nat} (task : α) (positive : 0 < delay)
    (waking : Nat × α) :
    waking ∈ (a.wakeAfter delay task).sleeping ↔
      waking ∈ a.sleeping ∨ waking = (a.now + delay, task) := by
  rw [wakeAfter, if_neg (Nat.ne_of_gt positive)]
  rw [wakeAt, (setWaking_perm _ _ _).mem_iff, List.mem_cons, or_comm]

theorem sleeping_wakeAfter_length (a : Agenda α) {delay : Nat} (task : α) (positive : 0 < delay) :
    (a.wakeAfter delay task).sleeping.length = a.sleeping.length + 1 := by
  rw [wakeAfter, if_neg (Nat.ne_of_gt positive)]
  exact (setWaking_perm _ _ _).length_eq

theorem mem_ready_wakeAfter {a : Agenda α} {task : α} (queued : task ∈ a.ready) (delay : Nat)
    (other : α) : task ∈ (a.wakeAfter delay other).ready := by
  unfold wakeAfter
  split
  · exact (mem_ready_wake a other task).mpr (Or.inl queued)
  · exact queued

theorem mem_summons_wakeAfter {a : Agenda α} {task : α} (summoned : task ∈ a.summons) (delay : Nat)
    (other : α) : task ∈ (a.wakeAfter delay other).summons := by
  unfold wakeAfter
  split
  · exact mem_summons_wakeAll summoned [other]
  · rw [summons, wakeAt, List.mem_append,
      ((setWaking_perm (a.now + delay) other a.sleeping).map Prod.snd).mem_iff, List.map_cons,
      List.mem_cons]
    exact (List.mem_append.mp summoned).imp_right Or.inr

theorem mem_summons_wakeAfter_self (a : Agenda α) (delay : Nat) (task : α) :
    task ∈ (a.wakeAfter delay task).summons := by
  unfold wakeAfter
  split
  · rw [summons, List.mem_append, mem_ready_wake]
    exact Or.inl (Or.inr rfl)
  · rw [summons, wakeAt, List.mem_append,
      ((setWaking_perm (a.now + delay) task a.sleeping).map Prod.snd).mem_iff, List.map_cons,
      List.mem_cons]
    exact Or.inr (Or.inl rfl)

theorem count_summons_wakeAfter (a : Agenda α) {delay : Nat} (task other : α)
    (positive : 0 < delay) :
    (a.wakeAfter delay task).summons.count other =
      a.summons.count other + if task = other then 1 else 0 := by
  have order := ((setWaking_perm (a.now + delay) task a.sleeping).map Prod.snd).count_eq other
  rw [count_summons, count_summons, ready_wakeAfter a task positive]
  rw [wakeAfter, if_neg (Nat.ne_of_gt positive), wakeAt, order]
  simp only [List.map_cons, List.count_cons, beq_iff_eq]
  omega

def enter (a : Agenda α) (alarms : List (Nat × α)) : Agenda α :=
  alarms.foldl (fun a alarm => a.wakeAfter alarm.1 alarm.2) a

theorem now_enter (a : Agenda α) (alarms : List (Nat × α)) : (a.enter alarms).now = a.now := by
  unfold enter
  induction alarms generalizing a with
  | nil => rfl
  | cons alarm rest ih => rw [List.foldl_cons, ih, now_wakeAfter]

theorem mem_ready_enter {a : Agenda α} {alarms : List (Nat × α)} {task : α}
    (queued : task ∈ (a.enter alarms).ready) : task ∈ a.ready ∨ (0, task) ∈ alarms := by
  unfold enter at queued
  induction alarms generalizing a with
  | nil => exact Or.inl queued
  | cons alarm rest ih =>
      rw [List.foldl_cons] at queued
      rcases ih queued with before | later
      · by_cases instant : alarm.1 = 0
        · rw [wakeAfter, if_pos instant, mem_ready_wake] at before
          rcases before with old | rfl
          · exact Or.inl old
          · exact Or.inr (instant ▸ List.mem_cons_self)
        · rw [ready_wakeAfter a alarm.2 (Nat.pos_of_ne_zero instant)] at before
          exact Or.inl before
      · exact Or.inr (List.mem_cons_of_mem _ later)

theorem mem_sleeping_enter {a : Agenda α} {alarms : List (Nat × α)} {waking : Nat × α}
    (asleep : waking ∈ (a.enter alarms).sleeping) :
    waking ∈ a.sleeping ∨ ∃ delay, (delay, waking.2) ∈ alarms ∧ waking.1 = a.now + delay := by
  unfold enter at asleep
  induction alarms generalizing a with
  | nil => exact Or.inl asleep
  | cons alarm rest ih =>
      rw [List.foldl_cons] at asleep
      rcases ih asleep with before | ⟨delay, listed, time⟩
      · by_cases instant : alarm.1 = 0
        · rw [wakeAfter, if_pos instant, sleeping_wake] at before
          exact Or.inl before
        · rw [mem_sleeping_wakeAfter a alarm.2 (Nat.pos_of_ne_zero instant)] at before
          rcases before with old | rfl
          · exact Or.inl old
          · exact Or.inr ⟨alarm.1, List.mem_cons_self, rfl⟩
      · rw [now_wakeAfter] at time
        exact Or.inr ⟨delay, List.mem_cons_of_mem _ listed, time⟩

theorem count_summons_enter (a : Agenda α) (alarms : List (Nat × α)) (task : α)
    (once : a.summons.count task + (alarms.map Prod.snd).count task ≤ 1) :
    (a.enter alarms).summons.count task =
      a.summons.count task + (alarms.map Prod.snd).count task := by
  unfold enter
  induction alarms generalizing a with
  | nil => rfl
  | cons alarm rest ih =>
      obtain ⟨delay, first⟩ := alarm
      rw [List.map_cons, List.count_cons] at once
      simp only [beq_iff_eq] at once
      have entered : (a.wakeAfter delay first).summons.count task =
          a.summons.count task + if first = task then 1 else 0 := by
        by_cases instant : delay = 0
        · rw [wakeAfter, if_pos instant]
          by_cases same : first = task
          · subst same
            simp only [↓reduceIte] at once ⊢
            rw [count_summons_wake_self a (by omega)]
            omega
          · rw [count_summons_wake_of_ne a same, if_neg same, Nat.add_zero]
        · exact count_summons_wakeAfter a first task (Nat.pos_of_ne_zero instant)
      rw [List.foldl_cons, ih _ (by rw [entered]; omega), entered, List.map_cons, List.count_cons]
      simp only [beq_iff_eq]
      omega

end Sleep

section Turns

omit [DecidableEq α] in
theorem pop?_eq_some {a rest : Agenda α} {task : α} (popped : a.pop? = some (task, rest)) :
    a.ready = task :: rest.ready ∧ rest.sleeping = a.sleeping ∧ rest.now = a.now := by
  unfold pop? at popped
  split at popped
  · rename_i first others shape
    cases popped
    exact ⟨shape, rfl, rfl⟩
  · cases popped

omit [DecidableEq α] in
theorem pop?_of_ready {a : Agenda α} {task : α} {rest : List α} (shape : a.ready = task :: rest) :
    a.pop? = some (task, { a with ready := rest }) := by
  unfold pop?
  rw [shape]

omit [DecidableEq α] in
theorem pop?_eq_none {a : Agenda α} : a.pop? = none ↔ a.ready = [] := by
  unfold pop?
  split <;> simp_all

theorem tick?_eq_some {a later : Agenda α} (ticked : a.tick? = some later) :
    ∃ time task rest, a.sleeping = (time, task) :: rest ∧
      later = ({ a with now := max a.now time, sleeping := rest } : Agenda α).wake task := by
  unfold tick? at ticked
  split at ticked
  · rename_i time task rest shape
    cases ticked
    exact ⟨time, task, rest, shape, rfl⟩
  · cases ticked

theorem tick?_eq_none {a : Agenda α} : a.tick? = none ↔ a.sleeping = [] := by
  unfold tick?
  split <;> simp_all

theorem count_summons_pop {a rest : Agenda α} {task : α} (popped : a.pop? = some (task, rest))
    (other : α) :
    a.summons.count other = rest.summons.count other + if task = other then 1 else 0 := by
  obtain ⟨shape, sleeping, -⟩ := pop?_eq_some popped
  rw [count_summons, count_summons, shape, sleeping, List.count_cons]
  simp only [beq_iff_eq]
  omega

theorem count_summons_tick {a later : Agenda α} (ticked : a.tick? = some later) {other : α}
    (once : a.summons.count other ≤ 1) : later.summons.count other = a.summons.count other := by
  obtain ⟨time, task, rest, shape, rfl⟩ := tick?_eq_some ticked
  rw [count_summons_wake]
  rw [count_summons, shape, List.map_cons, List.count_cons] at once
  rw [count_summons, count_summons, shape, List.map_cons, List.count_cons]
  by_cases same : task = other
  · subst same
    simp only [beq_self_eq_true, ↓reduceIte] at once ⊢
    have notQueued : task ∉ a.ready := List.count_eq_zero.mp (by omega)
    simp only [true_and, notQueued, not_false_eq_true, ↓reduceIte]
    omega
  · simp [same]

theorem mem_ready_tick {a later : Agenda α} (ticked : a.tick? = some later) {task : α}
    (queued : task ∈ a.ready) : task ∈ later.ready := by
  obtain ⟨time, first, rest, -, rfl⟩ := tick?_eq_some ticked
  exact (mem_ready_wake _ first task).mpr (Or.inl queued)

theorem mem_summons_tick {a later : Agenda α} (ticked : a.tick? = some later) {task : α}
    (summoned : task ∈ a.summons) : task ∈ later.summons := by
  obtain ⟨time, first, rest, shape, rfl⟩ := tick?_eq_some ticked
  rw [summons, List.mem_append, mem_ready_wake, sleeping_wake]
  rw [summons, shape, List.map_cons, List.mem_append, List.mem_cons] at summoned
  rcases summoned with queued | rfl | asleep
  · exact Or.inl (Or.inl queued)
  · exact Or.inl (Or.inr rfl)
  · exact Or.inr asleep

theorem now_tick {a later : Agenda α} (ticked : a.tick? = some later) : a.now ≤ later.now := by
  obtain ⟨time, task, rest, -, rfl⟩ := tick?_eq_some ticked
  rw [now_wake]
  exact Nat.le_max_left _ _

theorem sleeping_tick {a later : Agenda α} (ticked : a.tick? = some later) :
    a.sleeping.length = later.sleeping.length + 1 := by
  obtain ⟨time, task, rest, shape, rfl⟩ := tick?_eq_some ticked
  rw [sleeping_wake, shape, List.length_cons]

end Turns

section Forget

theorem count_summons_forget (a : Agenda α) (task other : α) :
    (a.forget task).summons.count other = if task = other then 0 else a.summons.count other := by
  rw [count_summons, count_summons]
  unfold forget
  by_cases same : task = other
  · subst same
    simp only [↓reduceIte, Nat.add_eq_zero_iff]
    constructor
    · exact List.count_eq_zero.mpr (by simp)
    · exact List.count_eq_zero.mpr (by simp)
  · rw [if_neg same]
    congr 1
    · exact List.count_filter (by simpa using fun h => same h.symm)
    · induction a.sleeping with
      | nil => rfl
      | cons waking rest ih =>
          by_cases hit : waking.2 = task
          · have missed : ¬waking.2 = other := fun h => same (hit.symm.trans h)
            simpa [hit, same, List.count_cons, missed] using ih
          · simpa [hit, List.count_cons] using ih

theorem mem_ready_forget (a : Agenda α) (task other : α) :
    other ∈ (a.forget task).ready ↔ other ∈ a.ready ∧ other ≠ task := by
  simp [forget]

end Forget

end LatencyRank.Agenda
