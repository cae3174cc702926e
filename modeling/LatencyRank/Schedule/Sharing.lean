import LatencyRank.Measurement.Basic
import LatencyRank.Schedule.WallClock
import LatencyRank.Schedule.Flights
import LatencyRank.Total

/-!
Callers that share probes. Each comes at its time and asks for the probe of its key; some are called
off at a time. The machine below runs them on cooperative time and keeps a log of what happened.
-/

namespace LatencyRank

structure Caller where
  key : String
  arrival : Nat
  /-- How long its probe takes, if it is the one that runs. -/
  duration : Nat
  latency : Int
  calledOff : Option Nat
deriving DecidableEq, Repr

namespace Caller

def probe (c : Caller) : Measurement :=
  { ip := c.key, latency := c.latency, loss := .zero, method := .tls }

end Caller

inductive CallerStage where
  | expected
  | waiting
  | probing
  /-- The flight is over; the caller has not resumed yet. -/
  | told (outcome : Measurement)
  | done (outcome : Measurement) (time : Nat)
  | calledOff
deriving DecidableEq, Repr

inductive Alarm where
  | resume (caller : Nat)
  | callOff (caller : Nat)
  /-- Count the open flights, for the given time. -/
  | count (number : Nat)
deriving DecidableEq, Repr

inductive SharingEvent where
  | joined (caller flight time : Nat)
  | started (caller time : Nat)
  | ended (caller time : Nat)
  | calledOff (caller time : Nat)
  | answered (caller time : Nat)
deriving DecidableEq, Repr

structure Sharing where
  callers : List Caller
  stages : List CallerStage
  flights : Flights := {}
  agenda : Agenda Alarm := {}
  /-- What happened, the latest first. -/
  log : List SharingEvent := []
  counts : List Nat := []

namespace Sharing

/-- When one sees the given times, waiting for them one after the other: a time that has passed is
not waited for. -/
def seenAt (now : Nat) : List Nat → List Nat
  | [] => []
  | time :: rest => max now time :: seenAt (max now time) rest

/-- All callers are expected. Flights are counted at the given times, before anything else that is
due at the start. -/
def start (callers : List Caller) (countAt : List Nat) : Sharing :=
  let counts := (seenAt 0 countAt).mapIdx fun n time => (time, Alarm.count n)
  let arrivals := callers.mapIdx fun n caller => (caller.arrival, Alarm.resume n)
  let endings := (callers.mapIdx fun n caller =>
    caller.calledOff.map fun time => (time, Alarm.callOff n)).filterMap id
  let due (a : Agenda Alarm) (alarm : Nat × Alarm) := a.wakeAfter alarm.1 alarm.2
  let agenda : Agenda Alarm := (counts ++ arrivals ++ endings).foldl due {}
  { callers, stages := callers.map fun _ => .expected, agenda }

def now (s : Sharing) : Nat := s.agenda.now

def setStage (s : Sharing) (n : Nat) (stage : CallerStage) : Sharing :=
  { s with stages := s.stages.set n stage }

def note (s : Sharing) (event : SharingEvent) : Sharing := { s with log := event :: s.log }

def wake (s : Sharing) (n : Nat) : Sharing := { s with agenda := s.agenda.wake (.resume n) }

def answer (s : Sharing) (n : Nat) (outcome : Measurement) : Sharing :=
  (s.setStage n (.done outcome s.now)).note (.answered n s.now)

def tell (outcome : Measurement) (s : Sharing) (n : Nat) : Sharing :=
  (s.setStage n (.told outcome)).wake n

/-- The caller's probe is over: its flight is closed and all who waited are told. -/
def finish (s : Sharing) (n : Nat) (caller : Caller) : Sharing :=
  let s := s.note (.ended n s.now)
  let (flights, waiting) := s.flights.land caller.key
  (waiting.foldl (tell caller.probe) { s with flights }).answer n caller.probe

def probe (s : Sharing) (n : Nat) (caller : Caller) : Sharing :=
  let s := s.note (.started n s.now)
  if caller.duration = 0 then s.finish n caller
  else { s.setStage n .probing with agenda := s.agenda.wakeAfter caller.duration (.resume n) }

def arrive (s : Sharing) (n : Nat) (caller : Caller) : Sharing :=
  let (flights, boarding) := s.flights.join caller.key n
  let s := { s with flights }.note (.joined n boarding.flight s.now)
  if boarding.runs then s.probe n caller else s.setStage n .waiting

def resume (s : Sharing) (n : Nat) : Sharing :=
  match s.callers[n]?, s.stages[n]? with
  | some caller, some stage =>
    match stage with
    | .expected => s.arrive n caller
    | .waiting => s.probe n caller
    | .probing => s.finish n caller
    | .told outcome => s.answer n outcome
    | .done .. | .calledOff => s
  | _, _ => s

/-- Calls a caller off wherever it is; one that is done stays so. -/
def callOff (s : Sharing) (n : Nat) : Sharing :=
  match s.callers[n]?, s.stages[n]? with
  | some caller, some stage =>
    match stage with
    | .done .. | .calledOff => s
    | _ =>
      let (flights, successor) := s.flights.leave caller.key n
      let s := { s.setStage n .calledOff with flights, agenda := s.agenda.forget (.resume n) }
      (successor.elim s s.wake).note (.calledOff n s.now)
  | _, _ => s

def handle (s : Sharing) : Alarm → Sharing
  | .resume n => s.resume n
  | .callOff n => s.callOff n
  | .count _ => { s with counts := s.flights.size :: s.counts }

def step? (s : Sharing) : Option Sharing :=
  match s.agenda.pop? with
  | some (alarm, agenda) => some ({ s with agenda }.handle alarm)
  | none => s.agenda.tick?.map fun agenda => { s with agenda }

def runFor : Nat → Sharing → Sharing
  | 0, s => s
  | fuel + 1, s =>
    match s.step? with
    | some s => runFor fuel s
    | none => s

/-- What is left for a caller to do, counted so that every step leaves less. -/
def stageWork : CallerStage → Nat
  | .expected => 6
  | .waiting => 5
  | .probing => 3
  | .told _ => 1
  | .done .. | .calledOff => 0

def work (s : Sharing) : Nat :=
  totalOf stageWork s.stages + 2 * s.agenda.sleeping.length + s.agenda.ready.length

def run (s : Sharing) : Sharing := runFor s.work s

end Sharing

end LatencyRank
