import LatencyRank.Ranker.Basic
import LatencyRank.Ranking.Score

/-!
What a task does when its turn comes. A task goes on until it has to wait; everything that it does
until then happens at one instant.
-/

namespace LatencyRank.Ranker

variable {σ : Type}

/-! ## Jobs -/

def spawn (r : Ranker σ) (ip domain : String) (owner : Owner) : Ranker σ :=
  let n := r.jobs.length
  ({ r with jobs := r.jobs ++ [({ ip, domain, owner } : Job)] }.note (.spawned n owner)).wake (.job n)

/-- Starts a refresh of an address, unless one is under way. -/
def refresh (r : Ranker σ) (ip domain : String) : Ranker σ :=
  if ip ∈ r.refreshing then r
  else { r with refreshing := r.refreshing ++ [ip] }.spawn ip domain .refresh

/-- Gives a ranking the outcome of one of its jobs and the job's permit back. -/
def deliver (r : Ranker σ) (number : Nat) (outcome : Measurement) : Ranker σ :=
  match r.rankings[number]? with
  | none => r
  | some call =>
    let next := { call with
      permits := call.permits + 1
      running := call.running - 1
      fresh := call.fresh ++ [outcome] }
    let r := r.setRanking number next
    if call.isWaiting then r.wake (.ranking number) else r

/-- A job ends with an outcome, its own or a shared one. -/
def finish (r : Ranker σ) (n : Nat) (job : Job) (outcome : Measurement) : Ranker σ :=
  let r := (r.setJob n (.done outcome)).note (.finished n r.agenda.now)
  match job.owner with
  | .refresh => { r with refreshing := r.refreshing.filter (· ≠ job.ip) }
  | .ranking number => r.deliver number outcome

def entryFor (settings : Settings) (wall : Int) (m : Measurement) : CacheEntry :=
  let staleAt := Signed.add wall (m.lifetime settings.baseLifetime)
  .make m.latency m.loss m.method staleAt (Signed.add staleAt settings.grace)

/-- Enters a complete measurement into the histories and the cache. A given-up one is in the
histories already. -/
def store (r : Ranker σ) (m : Measurement) : Ranker σ :=
  let r :=
    if m.abandoned then r
    else if m.loss.isZero then r.succeed m.ip
    else r.fail m.ip
  if r.settings.usesCache then
    { r with cache := r.cache.insert m.ip (entryFor r.settings r.wall m) }
  else r

def tell (outcome : Measurement) (r : Ranker σ) (n : Nat) : Ranker σ :=
  (r.setJob n (.told outcome)).wake (.job n)

/-- A measurement is complete: it is stored, every job that waited for it is told, and the job that
made it ends. -/
def complete (r : Ranker σ) (n : Nat) (job : Job) (m : Measurement) : Ranker σ :=
  let r := (r.store m).note (.measured n m r.wall)
  -- The flight is closed first, so whoever comes from here on has the pair measured again.
  let (flights, waiting) := r.flights.land job.key
  (waiting.foldl (tell m) { r with flights }).finish n job m

/-- Goes on after an attempt, as `next` does with what it adds; a failed first attempt is a fast
failure and ends the measurement. -/
def absorb (r : Ranker σ) (n : Nat) (job : Job) (progress : Progress) (sample : Option Sample)
    (next : Ranker σ → Progress → Ranker σ) : Ranker σ :=
  let r := r.note (.answered n sample r.agenda.now)
  match progress.take sample with
  | none => (r.fastFail job.ip).complete n job (.givenUp job.ip)
  | some progress => next r progress

/-- Makes the attempts that are left, until one takes time. -/
def attempt (n : Nat) (job : Job) : Nat → Ranker σ → Progress → Ranker σ
  | 0, r, progress => r.complete n job (progress.conclude job.ip r.settings.strategy)
  | left + 1, r, progress =>
    let (answer, memory) := r.prober.ask job.ip job.domain r.memory
    let r := { r with memory }.note (.asked n job.ip job.domain r.agenda.now)
    if answer.delay = 0 then r.absorb n job progress answer.sample (attempt n job left)
    else
      { r.setJob n (.attempting left progress answer.sample) with
        agenda := r.agenda.wakeAfter answer.delay (.job n) }

def measure (r : Ranker σ) (n : Nat) (job : Job) : Ranker σ :=
  attempt n job r.settings.attemptCount r {}

def resumeJob (r : Ranker σ) (n : Nat) : Ranker σ :=
  match r.jobs[n]? with
  | none => r
  | some job =>
    match job.stage with
    | .queued =>
      let (flights, boarding) := r.flights.join job.key n
      let r := { r with flights }
      if boarding.runs then r.measure n job else r.setJob n .waiting
    | .waiting => r.measure n job
    | .attempting left progress sample => r.absorb n job progress sample (attempt n job left)
    | .told outcome => r.finish n job outcome
    | .done _ => r

/-! ## Rankings -/

def served (r : Ranker σ) (ip : String) : Option Measurement :=
  if r.settings.usesCache then (r.cache.find? ip).bind fun entry => entry.serve ip r.wall else none

def chosen (settings : Settings) (candidates : List String) : List String :=
  if settings.candidateLimit = 0 then candidates else candidates.take settings.candidateLimit

/-- Returns the ranking of everything that is known by now. -/
def conclude (r : Ranker σ) (number : Nat) (call : RankingCall) : Ranker σ :=
  let results := Ranking.rank (call.hits ++ call.fresh) r.history r.wall
  (r.setRanking number { call with stage := .returned results r.agenda.now }).note
    (.returned number r.agenda.now)

/-- Waits for the jobs that run, unless the ranking is cancelled. -/
def join (r : Ranker σ) (number : Nat) (call : RankingCall) : Ranker σ :=
  if call.cancelled ∨ call.running = 0 then r.conclude number call
  else r.setRanking number { call with stage := .joining }

/-- Queues a job for each address as long as there are permits. -/
def dispatch (number : Nat) : List String → Ranker σ → RankingCall → Ranker σ
  | [], r, call => r.join number call
  | ip :: rest, r, call =>
    -- Once it is cancelled the addresses that are left are nobody's.
    if call.cancelled then r.join number call
    else if call.permits = 0 then r.setRanking number { call with stage := .dispatching (ip :: rest) }
    else
      dispatch number rest (r.spawn ip call.domain (.ranking number))
        { call with permits := call.permits - 1, running := call.running + 1 }

/-- Looks the candidates up: hits are collected and misses kept, both in order. A stale hit starts
its refresh at once. -/
def partition (domain : String) : List String → Ranker σ → Ranker σ × List Measurement × List String
  | [], r => (r, [], [])
  | ip :: rest, r =>
    match r.served ip with
    | none =>
      let (r, hits, misses) := partition domain rest r
      (r, hits, ip :: misses)
    | some hit =>
      let r := if hit.method = .stale then r.refresh ip domain else r
      let (r, hits, misses) := partition domain rest r
      (r, hit :: hits, misses)

/-- Looks the candidates up and dispatches the misses. Permits are made for a miss only. -/
def begin (r : Ranker σ) (number : Nat) (call : RankingCall) : Ranker σ :=
  let (r, hits, misses) := partition call.domain (chosen r.settings call.candidates) r
  if misses ≠ [] ∧ permitLimit < call.permits then
    r.setRanking number { call with hits, stage := .broken }
  else dispatch number misses r { call with hits }

def resumeRanking (r : Ranker σ) (number : Nat) : Ranker σ :=
  match r.rankings[number]? with
  | none => r
  | some call =>
    match call.stage with
    | .expected => r.begin number call
    | .dispatching misses => dispatch number misses r call
    | .joining => r.join number call
    | .returned .. | .broken => r

/-- Cancels a ranking. It goes on at once if it waits. -/
def cancel (r : Ranker σ) (number : Nat) : Ranker σ :=
  match r.rankings[number]? with
  | none => r
  | some call =>
    let r := r.setRanking number { call with cancelled := true }
    if call.isWaiting ∧ !call.cancelled then r.wake (.ranking number) else r

/-! ## The machine -/

def handle (r : Ranker σ) : Task → Ranker σ
  | .job n => r.resumeJob n
  | .ranking n => r.resumeRanking n
  | .cancel n => r.cancel n

def step? (r : Ranker σ) : Option (Ranker σ) :=
  r.agenda.pop?.map fun (task, agenda) => { r with agenda }.handle task

def tick? (r : Ranker σ) : Option (Ranker σ) := r.agenda.tick?.map fun agenda => { r with agenda }

/-- Asks for a ranking. It starts after a while and may be cancelled some time after that; a ranking
cancelled after no time starts cancelled. -/
def request (r : Ranker σ) (candidates : List String) (domain : String) (start : Nat)
    (cancelAfter : Option Nat) : Ranker σ :=
  let number := r.rankings.length
  let call : RankingCall :=
    { candidates, domain, cancelled := cancelAfter = some 0, permits := max r.settings.concurrency 1 }
  let agenda := r.agenda.wakeAfter start (.ranking number)
  let agenda := match cancelAfter with
    | none | some 0 => agenda
    | some after => agenda.wakeAfter (start + after) (.cancel number)
  { r with rankings := r.rankings ++ [call], agenda }

end LatencyRank.Ranker
