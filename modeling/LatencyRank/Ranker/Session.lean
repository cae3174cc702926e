import LatencyRank.Ranker.Run
import LatencyRank.Settings.Store

/-!
A session with rankers, one in use at a time, over one disk, one clock and one prober's memory.
A ranker that is dropped saves its histories; measurements that it has under way go on.
-/

namespace LatencyRank

structure Session (σ : Type) where
  disk : Disk
  clock : WallClock
  memory : σ
  time : Nat := 0
  /-- All rankers, the latest first. -/
  rankers : List (Ranker σ) := []
  inUse : Bool := false
  /-- What happened on record since the last mark, the latest first. -/
  log : List RankerEvent := []
  /-- The attempts that were under way at the last mark. -/
  underWay : Nat := 0

namespace Session

variable {σ : Type}

def current? (s : Session σ) : Option (Ranker σ) := if s.inUse then s.rankers.head? else none

def wall (s : Session σ) : Int := s.clock.read s.time

/-- Lets a ranker act, with the session's time, clock and memory. -/
def onRanker (s : Session σ) (index : Nat) (act : Ranker σ → Ranker σ) : Session σ :=
  match s.rankers[index]? with
  | none => s
  | some r =>
    let r := act { r with
      agenda := { r.agenda with now := s.time }
      clock := s.clock
      memory := s.memory
      journal := [] }
    { s with
      time := r.agenda.now
      memory := r.memory
      log := if r.prober.onRecord then r.journal ++ s.log else s.log
      rankers := s.rankers.set index r }

def onCurrent (s : Session σ) (act : Ranker σ → Ranker σ) : Session σ :=
  if s.inUse then s.onRanker 0 act else s

def earlier : Option (Nat × Nat) → Option (Nat × Nat) → Option (Nat × Nat)
  | none, other => other
  | best, none => best
  | some best, some other => some (if other.1 < best.1 then other else best)

def nextWaking (s : Session σ) : Option (Nat × Nat) :=
  (s.rankers.mapIdx fun index r => r.agenda.nextWaking.map (·, index)).foldl earlier none

def tickUpTo? (s : Session σ) (limit : Option Nat) : Option (Session σ) :=
  match s.nextWaking with
  | none => none
  | some (time, index) =>
    if limit.any (· < time) then none
    else some (s.onRanker index fun r => r.tick?.getD r)

def settle (s : Session σ) : Session σ :=
  (List.range s.rankers.length).foldl (fun s index => s.onRanker index Ranker.settle) s

def horizon (s : Session σ) : Nat := totalOf Ranker.horizon s.rankers

def passUntil (stop : Ranker σ → Bool) : Nat → Session σ → Session σ
  | 0, s => s.onCurrent (Ranker.settleUntil stop)
  | fuel + 1, s =>
    let s := s.onCurrent (Ranker.settleUntil stop)
    if s.current?.all stop then s
    else match s.settle.tickUpTo? none with
      | some s => passUntil stop fuel s
      | none => s

def passUpTo (limit : Nat) : Nat → Session σ → Session σ
  | 0, s => s
  | fuel + 1, s =>
    match s.tickUpTo? (some limit) with
    | some s => passUpTo limit fuel s.settle
    | none => s

def advance (s : Session σ) (ms : Nat) : Session σ :=
  let limit := s.time + ms
  { passUpTo limit s.horizon s with time := limit }.settle

def jump (s : Session σ) (ms : Int) : Session σ := { s with clock := s.clock.set ms }

def wait (s : Session σ) : Session σ :=
  (passUntil (fun r => r.liveRefreshes.isEmpty) s.horizon s).settle

/-! ## What was seen -/

def attemptsUnderWay (s : Session σ) : Nat :=
  totalOf (fun r => r.jobs.countP Job.isAttempting) (s.rankers.filter fun r => r.prober.onRecord)

/-- Starts a new log. -/
def mark (s : Session σ) : Session σ := { s with log := [], underWay := s.attemptsUnderWay }

/-- The attempts since the mark: when and for what. -/
def asked (s : Session σ) : List (Nat × String × String) :=
  s.log.reverse.filterMap fun
    | .asked _ ip domain time => some (time, ip, domain)
    | _ => none

/-- The attempts under way and the most that were, after an event. -/
def countEvent (count : Nat × Nat) : RankerEvent → Nat × Nat
  | .asked .. => (count.1 + 1, max count.2 (count.1 + 1))
  | .answered .. => (count.1 - 1, count.2)
  | _ => count

/-- The most attempts that were under way at once since the mark. -/
def peak (s : Session σ) : Nat := (s.log.reverse.foldl countEvent (s.underWay, 0)).2

def isBroken (s : Session σ) : Bool := s.rankers.any fun r => r.rankings.any RankingCall.isBroken

/-! ## Rankers and rankings -/

/-- Stops the ranker in use and lets go of it. -/
def drop (s : Session σ) : Session σ :=
  match s.current? with
  | none => s
  | some r =>
    let (r, disk) := r.stop s.disk
    { s with disk, inUse := false, rankers := s.rankers.set 0 r }

def use (s : Session σ) (settings : Settings) (base : String) (prober : Prober σ) : Session σ :=
  let s := s.drop
  let r := Ranker.make settings base s.disk prober s.memory s.clock
  { s with rankers := r :: s.rankers, inUse := true }

/-- Stops the ranker in use without letting go of it. -/
def stop (s : Session σ) : Session σ :=
  match s.current? with
  | none => s
  | some r =>
    let (r, disk) := r.stop s.disk
    { s with disk, rankers := s.rankers.set 0 r }

def save (s : Session σ) : Session σ × Except SnapshotError Unit :=
  match s.current? with
  | none => (s, .ok ())
  | some r =>
    let (disk, outcome) := r.history.save s.disk
    ({ s with disk }, outcome)

structure Request where
  candidates : List String
  domain : String
  /-- When it starts, from now. -/
  start : Nat := 0
  /-- When it is cancelled, from its start. -/
  cancelAfter : Option Nat := none

/-- Asks for rankings and waits for all of them; their results and times come in the order of the
requests, for a broken one no results and the present time. -/
def rank (s : Session σ) (requests : List Request) : Session σ × List (List Measurement × Nat) :=
  let first := (s.current?.map fun r => r.rankings.length).getD 0
  let s := s.onCurrent fun r => requests.foldl (fun r request =>
    r.request request.candidates request.domain request.start request.cancelAfter) r
  let s := passUntil (fun r => r.rankings.all RankingCall.isOver) s.horizon s
  let rankings := (s.current?.map Ranker.rankings).getD []
  let results := (rankings.drop first).map fun call =>
    match call.stage with
    | .returned results time => (results, time)
    | _ => ([], s.time)
  (s, results)

/-- Asks for rankings side by side; the answer comes when nothing else can run at that instant. -/
def rankTogether (s : Session σ) (requests : List Request) :
    Session σ × List (List Measurement × Nat) :=
  let (s, results) := s.rank requests
  (s.settle, results)

end Session

end LatencyRank
