/-!
Cooperative time and the time of day. Tasks that can run wait in a queue, first come, first served; the
others sleep. Time stands still while a task can run and then moves to the next waking. The time of day, in
milliseconds since 1970, runs with it but can be set.
-/

namespace LatencyRank

structure Agenda (α : Type) where
  now : Nat := 0
  ready : List α := []
  /-- Wakings, the earliest first; of equal times the one set first. -/
  sleeping : List (Nat × α) := []

namespace Agenda

variable {α : Type} [DecidableEq α]

/-- Queues a task, unless it is queued. -/
def wake (a : Agenda α) (task : α) : Agenda α :=
  if task ∈ a.ready then a else { a with ready := a.ready ++ [task] }

def setWaking (time : Nat) (task : α) : List (Nat × α) → List (Nat × α)
  | [] => [(time, task)]
  | waking :: rest =>
    if time < waking.1 then (time, task) :: waking :: rest else waking :: setWaking time task rest

def wakeAt (a : Agenda α) (time : Nat) (task : α) : Agenda α :=
  { a with sleeping := setWaking time task a.sleeping }

/-- Wakes the task after a while; no while at all is no sleep. -/
def wakeAfter (a : Agenda α) (delay : Nat) (task : α) : Agenda α :=
  if delay = 0 then a.wake task else a.wakeAt (a.now + delay) task

def forget (a : Agenda α) (task : α) : Agenda α :=
  { a with ready := a.ready.filter (· ≠ task), sleeping := a.sleeping.filter (·.2 ≠ task) }

def pop? (a : Agenda α) : Option (α × Agenda α) :=
  match a.ready with
  | task :: rest => some (task, { a with ready := rest })
  | [] => none

def nextWaking (a : Agenda α) : Option Nat := a.sleeping.head?.map Prod.fst

def tick? (a : Agenda α) : Option (Agenda α) :=
  match a.sleeping with
  | (time, task) :: rest => some ({ a with now := max a.now time, sleeping := rest }.wake task)
  | [] => none

end Agenda

structure WallClock where
  /-- What the clock shows at cooperative time zero. -/
  atStart : Int
deriving DecidableEq, Repr

namespace WallClock

/-- A reading at a cooperative time. The clock reads zero before 1970. -/
def read (c : WallClock) (time : Nat) : Int := max (c.atStart + time) 0

def set (c : WallClock) (by' : Int) : WallClock := ⟨c.atStart + by'⟩

end WallClock

end LatencyRank
