import LatencyRank.Cache.Sharded
import LatencyRank.History.Snapshot
import LatencyRank.Measurement.Attempts
import LatencyRank.Schedule.WallClock
import LatencyRank.Schedule.Flights

/-!
A ranker at work: its cache and histories, the rankings that were asked of it, and the jobs that
measure addresses. A job belongs to a ranking or refreshes a stale entry; it shares its measurement
with every other job of the same address and domain.
-/

namespace LatencyRank

inductive Owner where
  | ranking (number : Nat)
  | refresh
deriving DecidableEq, Repr

inductive JobStage where
  | queued
  | waiting
  /-- An attempt is under way; `left` more may follow. -/
  | attempting (left : Nat) (progress : Progress) (sample : Option Sample)
  /-- The shared measurement is over; the job has not resumed yet. -/
  | told (outcome : Measurement)
  | done (outcome : Measurement)
deriving DecidableEq, Repr

structure Job where
  ip : String
  domain : String
  owner : Owner
  stage : JobStage := .queued
deriving DecidableEq, Repr

namespace Job

def key (j : Job) : String := pairKey j.ip j.domain

def isDone (j : Job) : Bool :=
  match j.stage with
  | .done _ => true
  | _ => false

def isAttempting (j : Job) : Bool :=
  match j.stage with
  | .attempting .. => true
  | _ => false

end Job

inductive RankingStage where
  | expected
  /-- Waits for a permit to measure the first of these addresses. -/
  | dispatching (misses : List String)
  | joining
  | returned (results : List Measurement) (time : Nat)
  /-- It asked for more permits than there can be and breaks down. -/
  | broken
deriving DecidableEq, Repr

/-- The most permits that there can be: an eighth of the 64-bit range. -/
def permitLimit : Nat := Unsigned.greatest64 / 8

structure RankingCall where
  candidates : List String
  domain : String
  cancelled : Bool := false
  stage : RankingStage := .expected
  /-- How many more of its jobs may run at once. -/
  permits : Nat
  /-- Its jobs that are not done. -/
  running : Nat := 0
  /-- What the cache answered, in the order of the candidates. -/
  hits : List Measurement := []
  /-- What its jobs found, in the order in which they were done. -/
  fresh : List Measurement := []
deriving DecidableEq, Repr

namespace RankingCall

def isBroken (c : RankingCall) : Bool :=
  match c.stage with
  | .broken => true
  | _ => false

/-- Whether nothing more comes of the ranking. -/
def isOver (c : RankingCall) : Bool :=
  match c.stage with
  | .returned .. | .broken => true
  | _ => false

def isWaiting (c : RankingCall) : Bool :=
  match c.stage with
  | .dispatching _ | .joining => true
  | _ => false

end RankingCall

/-- What can be due: to go on with a job or a ranking, or to cancel a ranking. -/
inductive Task where
  | job (number : Nat)
  | ranking (number : Nat)
  | cancel (number : Nat)
deriving DecidableEq, Repr

/-- What happened, as far as it can be seen from outside or has to be accounted for. -/
inductive RankerEvent where
  | spawned (job : Nat) (owner : Owner)
  | asked (job : Nat) (ip domain : String) (time : Nat)
  | answered (job : Nat) (sample : Option Sample) (time : Nat)
  | measured (job : Nat) (outcome : Measurement) (wall : Int)
  | finished (job : Nat) (time : Nat)
  | returned (ranking : Nat) (time : Nat)
deriving DecidableEq, Repr

structure Ranker (σ : Type) where
  settings : Settings
  prober : Prober σ
  memory : σ
  clock : WallClock
  agenda : Agenda Task := {}
  cache : ShardedCache
  history : HistoryBook
  flights : Flights := {}
  refreshing : List String := []
  jobs : List Job := []
  rankings : List RankingCall := []
  /-- What happened, the latest first. -/
  journal : List RankerEvent := []
  sweeping : Bool
  stopped : Bool := false

namespace Ranker

/-- Where the histories are kept: a blank path means nowhere, a relative one starts at the base. -/
def historyPath (settings : Settings) (base : String) : Option String :=
  (settings.historyPath.map Text.trim).filter (· ≠ "") |>.map (Disk.resolve base)

def openHistory (settings : Settings) (base : String) (disk : Disk) : HistoryBook :=
  match historyPath settings base with
  | some path => .load disk path settings.decayWindow settings.failureCap
  | none => .inMemory settings.decayWindow settings.failureCap

/-- A new ranker. It uses normalized settings. -/
def make {σ : Type} (settings : Settings) (base : String) (disk : Disk) (prober : Prober σ)
    (memory : σ) (clock : WallClock) : Ranker σ :=
  let settings := settings.normalized
  { settings, prober, memory, clock
    cache := .make settings.shards
    history := openHistory settings base disk
    sweeping := settings.usesCache }

variable {σ : Type}

def wall (r : Ranker σ) : Int := r.clock.read r.agenda.now

def note (r : Ranker σ) (event : RankerEvent) : Ranker σ := { r with journal := event :: r.journal }

def wake (r : Ranker σ) (task : Task) : Ranker σ := { r with agenda := r.agenda.wake task }

def setJob (r : Ranker σ) (n : Nat) (stage : JobStage) : Ranker σ :=
  { r with jobs := r.jobs.modify n fun job => { job with stage } }

def setRanking (r : Ranker σ) (n : Nat) (call : RankingCall) : Ranker σ :=
  { r with rankings := r.rankings.set n call }

def fail (r : Ranker σ) (ip : String) : Ranker σ := { r with history := r.history.fail ip r.wall }

def fastFail (r : Ranker σ) (ip : String) : Ranker σ :=
  { r with history := r.history.fastFail ip r.wall }

def succeed (r : Ranker σ) (ip : String) : Ranker σ := { r with history := r.history.succeed ip }

def weight (r : Ranker σ) (ip : String) : Int := r.history.weight ip r.wall

/-- The jobs that refresh a stale entry and are not done. -/
def liveRefreshes (r : Ranker σ) : List Job :=
  r.jobs.filter fun job => decide (job.owner = .refresh) && !job.isDone

def sweep (r : Ranker σ) : Ranker σ :=
  if r.sweeping then { r with cache := (r.cache.cleanup r.wall).1 } else r

/-- Ends sweeping and saves the histories, the first time; failures to save are passed over. -/
def stop (r : Ranker σ) (disk : Disk) : Ranker σ × Disk :=
  if r.stopped then (r, disk)
  else ({ r with sweeping := false, stopped := true }, (r.history.save disk).1)

end Ranker

end LatencyRank
