import LatencyRank.History.Book
import LatencyRank.Measurement.Basic

/-!
What a measurement is worth. Its score is its latency in milliseconds with everything that speaks against
it: 30 for each percent of loss, the penalty of its method, the weight of its failures. Lower is better;
equal scores go by address, and equal addresses keep their order. The better the address answered, the
longer the measurement stays fresh: an unreachable one is asked again soon, a lossless and quick one keeps
ten times the base.
-/

namespace LatencyRank

namespace Measurement

def lossFactor : Binary64 := .ofInt 30

def score (m : Measurement) (weight : Int) : Int :=
  Signed.add (Signed.add (Signed.add m.latency (m.loss.mul lossFactor).round) m.method.penalty) weight

/-- Lossless answers below this latency count as quick. -/
def quickLatency : Int := 50

/-- The share of the base lifetime, by the band that a measurement falls in. -/
def lifetimeFactor (m : Measurement) : Binary64 :=
  if m.isDead then Decimal.toBinary64 ⟨false, 8, -2⟩
  else if Binary64.ofInt 50 ≤ m.loss then Decimal.toBinary64 ⟨false, 17, -2⟩
  else if Binary64.zero < m.loss then .ofInt 1
  else if m.latency < quickLatency then .ofInt 10
  else .ofInt 5

/-- The time from a measurement until it is stale, in milliseconds. -/
def lifetime (m : Measurement) (base : Int) : Int :=
  ((Binary64.ofInt base).mul m.lifetimeFactor).truncate

end Measurement

namespace Ranking

structure Scored where
  score : Int
  measurement : Measurement

def Scored.le (x y : Scored) : Bool :=
  decide (x.score < y.score ∨ (x.score = y.score ∧ x.measurement.ip ≤ y.measurement.ip))

def scored (book : HistoryBook) (now : Int) (m : Measurement) : Scored :=
  ⟨m.score (book.weight m.ip now), m⟩

def rank (results : List Measurement) (book : HistoryBook) (now : Int) : List Measurement :=
  ((results.map (scored book now)).mergeSort Scored.le).map Scored.measurement

end Ranking

end LatencyRank
