import LatencyRank.History.Book
import LatencyRank.Disk
import LatencyRank.Json.Reader
import LatencyRank.Json.Basic

/-!
The book on disk. Saving writes a file beside the old one and moves it into place, so that the old
snapshot stays until the new one is whole; a draft that is written in part is left behind. A file that
cannot be read starts an empty book.
-/

namespace LatencyRank

inductive SnapshotError where
  | write (path : String)
  | replace (path : String)
deriving DecidableEq, Repr

def SnapshotError.message : SnapshotError → String
  | write path => "write ip failure weights: " ++ path
  | replace path => "replace ip failure weights: " ++ path

namespace HistoryBook

def snapshot (b : HistoryBook) : String := (Json.array (b.toList.map FailureRecord.toJson)).pretty

/-- The records of a file, `none` if it is missing or holds anything else. -/
def readRecords? (disk : Disk) (path : String) : Option (List FailureRecord) := do
  let bytes ← disk.read? path
  let value ← Json.ofBytes? bytes
  FailureRecord.listOfJson? value

/-- Files the records under their addresses; of several for one address the last stays. -/
def enter (records : Keyed FailureRecord) (loaded : List FailureRecord) : Keyed FailureRecord :=
  loaded.foldl (fun records record => records.insert record.ip record) records

def load (disk : Disk) (path : String) (window : Int) (cap : Nat) : HistoryBook :=
  let loaded := (readRecords? disk path).getD []
  -- The counters stay as the file has them, also above the limit.
  { inMemory window cap with path := some path, records := enter .empty loaded }

/-- Where a new snapshot is written before it takes its place. -/
def draftPath (path : String) : String := path ++ ".tmp"

/-- The disk after saving, and what went wrong. A book without a path is not saved. -/
def save (b : HistoryBook) (disk : Disk) : Disk × Except SnapshotError Unit :=
  match b.path with
  | none => (disk, .ok ())
  | some path =>
    let disk := disk.makeParent path
    let draft := draftPath path
    let bytes := b.snapshot.toUTF8
    match disk.write? draft bytes with
    | none => (disk, .error (.write draft))
    | some written =>
      -- Neither failure takes the draft away again.
      if !disk.takes bytes then (written, .error (.write draft))
      else match written.rename? draft path with
        | none => (written, .error (.replace path))
        | some renamed => (renamed, .ok ())

end HistoryBook

end LatencyRank
