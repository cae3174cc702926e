import LatencyRank.Measurement.Basic
import LatencyRank.Probe.Script
import LatencyRank.Settings.Basic

/-!
From attempts to a measurement. A failure of the first attempt ends the measurement at once; later
failures are losses, each of which makes the latency worse and counts in percent.
-/

namespace LatencyRank

def lostAttemptPenalty : Int := 150

/-- One latency for several; none for none. The average drops its fraction. -/
def Strategy.combine (strategy : Strategy) (latencies : List Int) : Option Int :=
  match strategy, latencies with
  | _, [] => none
  | .minimum, first :: rest => some (rest.foldl min first)
  | .average, _ => some ((latencies.foldl (· + ·) 0).tdiv latencies.length)

structure Progress where
  made : Nat := 0
  /-- The latencies of the successful ones, in order. -/
  latencies : List Int := []
  method : Option Method := none
deriving DecidableEq, Repr

namespace Progress

/-- One more attempt; `none` where the first one failed. -/
def take (p : Progress) : Option Sample → Option Progress
  | some sample =>
    some { made := p.made + 1, latencies := p.latencies ++ [sample.latency],
           method := some (p.method.getD sample.method) }
  | none => if p.made = 0 then none else some { p with made := p.made + 1 }

def conclude (p : Progress) (ip : String) (strategy : Strategy) : Measurement :=
  match p.method, strategy.combine p.latencies with
  | some method, some latency =>
    let lost := p.made - p.latencies.length
    let share := (Binary64.ofInt lost).div (.ofInt p.made)
    { ip, latency := latency + lost * lostAttemptPenalty, loss := share.mul (.ofInt 100), method }
  | _, _ => .dead ip

end Progress

def Settings.attemptCount (s : Settings) : Nat := max s.attempts 1

/-- The measurement that a sequence of outcomes leads to, and how many of them it takes. Missing
outcomes count as failures. -/
def measure (ip : String) (strategy : Strategy) :
    Nat → Progress → List (Option Sample) → Measurement × Nat
  | 0, p, _ => (p.conclude ip strategy, p.made)
  | left + 1, p, outcomes =>
    match p.take (outcomes.head?.join) with
    | none => (.givenUp ip, p.made + 1)
    | some p => measure ip strategy left p outcomes.tail

end LatencyRank
