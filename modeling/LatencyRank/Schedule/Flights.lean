/-!
Shared work. Callers of one key fly together: the first runs the work, the others wait for its
outcome in the order in which they came. A runner that is called off hands over to the longest
waiting; a flight whose only caller was called off stays open for the next one. When the work is
done the flight is closed, so a later caller starts afresh.
-/

namespace LatencyRank

structure Flight where
  number : Nat
  key : String
  /-- Who runs the work, or is about to. -/
  runner : Option Nat
  waiting : List Nat
deriving DecidableEq, Repr

structure Flights where
  next : Nat := 0
  aloft : List Flight := []
deriving DecidableEq, Repr

namespace Flights

def find? (f : Flights) (key : String) : Option Flight := f.aloft.find? fun flight => flight.key = key

def size (f : Flights) : Nat := f.aloft.length

def revise (f : Flights) (key : String) (change : Flight → Flight) : Flights :=
  { f with aloft := f.aloft.map fun flight => if flight.key = key then change flight else flight }

structure Boarding where
  flight : Nat
  runs : Bool

/-- Joins the flight of a key, or opens one. -/
def join (f : Flights) (key : String) (caller : Nat) : Flights × Boarding :=
  match f.find? key with
  | none =>
    let flight := { number := f.next, key, runner := some caller, waiting := [] }
    ({ next := f.next + 1, aloft := f.aloft ++ [flight] }, ⟨f.next, true⟩)
  | some flight =>
    match flight.runner with
    | none => (f.revise key fun flight => { flight with runner := some caller }, ⟨flight.number, true⟩)
    | some _ =>
      (f.revise key fun flight => { flight with waiting := flight.waiting ++ [caller] },
        ⟨flight.number, false⟩)

/-- Closes the flight of a key and tells who waited for the outcome. -/
def land (f : Flights) (key : String) : Flights × List Nat :=
  match f.find? key with
  | none => (f, [])
  | some flight => ({ f with aloft := f.aloft.filter fun flight => flight.key ≠ key }, flight.waiting)

/-- Calls a caller off and tells who is to run the work instead. -/
def leave (f : Flights) (key : String) (caller : Nat) : Flights × Option Nat :=
  match f.find? key with
  | none => (f, none)
  | some flight =>
    if flight.runner = some caller then
      (f.revise key fun flight =>
          { flight with runner := flight.waiting.head?, waiting := flight.waiting.tail },
        flight.waiting.head?)
    else
      (f.revise key fun flight => { flight with waiting := flight.waiting.filter (· ≠ caller) }, none)

end Flights

def pairKey (ip domain : String) : String := ip ++ ":" ++ domain

end LatencyRank
