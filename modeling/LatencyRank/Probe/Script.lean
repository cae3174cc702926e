import LatencyRank.Keyed
import LatencyRank.Measurement.Basic

/-!
A prober answers one attempt at a time, each for an address and a domain. What it answers may depend
on what it was asked before, which it keeps in a state of its own. Two need no network: one follows a
script for each address, and one always fails.
-/

namespace LatencyRank

structure Sample where
  latency : Int
  method : Method
deriving DecidableEq, Repr

/-- What becomes of an attempt: it takes its time and then yields a sample or fails. -/
structure Attempt where
  delay : Nat
  sample : Option Sample
deriving DecidableEq, Repr

structure Prober (σ : Type) where
  ask : String → String → σ → Attempt × σ
  /-- Whether its attempts are put on record. -/
  onRecord : Bool := true

namespace Attempt

def failure : Attempt := ⟨0, none⟩

end Attempt

/-- The next answers for an address, and what follows when they are used up. -/
structure Script where
  upcoming : List Attempt := []
  usual : Attempt := .failure
deriving DecidableEq, Repr

/-- A change of a script: more answers at its end, and perhaps another usual one. -/
structure Direction where
  upcoming : List Attempt := []
  usual : Option Attempt := none

abbrev Scripts := Keyed Script

namespace Scripts

def script (s : Scripts) (ip : String) : Script := (s.find? ip).getD {}

def answer (s : Scripts) (ip : String) : Attempt × Scripts :=
  let script := s.script ip
  match script.upcoming with
  | next :: rest => (next, s.insert ip { script with upcoming := rest })
  | [] => (script.usual, s)

def prober : Prober Scripts := { ask := fun ip _ s => s.answer ip }

def direct (s : Scripts) (ip : String) (d : Direction) : Scripts :=
  let script := s.script ip
  s.insert ip { upcoming := script.upcoming ++ d.upcoming, usual := d.usual.getD script.usual }

end Scripts

/-- Fails every attempt at once and off the record. -/
def Prober.failing {σ : Type} : Prober σ := { ask := fun _ _ s => (.failure, s), onRecord := false }

end LatencyRank
