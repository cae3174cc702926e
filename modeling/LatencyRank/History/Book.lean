import LatencyRank.History.Record
import LatencyRank.Keyed

/-!
The failure histories of all addresses, with the limit of their counters and the decay window.
-/

namespace LatencyRank

structure HistoryBook where
  path : Option String
  window : Int
  cap : Nat
  records : Keyed FailureRecord

namespace HistoryBook

/-- An empty book; its counters reach one at least. -/
def inMemory (window : Int) (cap : Nat) : HistoryBook := ⟨none, window, max cap 1, .empty⟩

/-- What is known of an address; a history without entries for an unknown one. -/
def record (b : HistoryBook) (ip : String) : FailureRecord := (b.records.find? ip).getD { ip }

def update (b : HistoryBook) (ip : String) (change : FailureRecord → FailureRecord) : HistoryBook :=
  { b with records := b.records.insert ip (change (b.record ip)) }

def fail (b : HistoryBook) (ip : String) (now : Int) : HistoryBook :=
  b.update ip (FailureRecord.fail b.cap now)

def fastFail (b : HistoryBook) (ip : String) (now : Int) : HistoryBook :=
  b.update ip (FailureRecord.fastFail b.cap now)

def succeed (b : HistoryBook) (ip : String) : HistoryBook := b.update ip FailureRecord.succeed

/-- What happens to an address, with the time of a failure. -/
inductive Entry where
  | failed (ip : String) (now : Int)
  | fastFailed (ip : String) (now : Int)
  | succeeded (ip : String)

def note (b : HistoryBook) : Entry → HistoryBook
  | .failed ip now => b.fail ip now
  | .fastFailed ip now => b.fastFail ip now
  | .succeeded ip => b.succeed ip

def weight (b : HistoryBook) (ip : String) (now : Int) : Int :=
  match b.records.find? ip with
  | some record => record.weightAt b.window now
  | none => 0

def clear (b : HistoryBook) : HistoryBook := { b with records := .empty }

def size (b : HistoryBook) : Nat := b.records.size

def toList (b : HistoryBook) : List FailureRecord :=
  (b.records.entries.map Prod.snd).mergeSort fun x y => decide (x.ip ≤ y.ip)

end HistoryBook

end LatencyRank
