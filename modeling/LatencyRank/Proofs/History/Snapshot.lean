import Mathlib
import LatencyRank.History.Snapshot
import LatencyRank.Ranker.Session
import LatencyRank.Proofs.Disk
import LatencyRank.Proofs.History.Book
import LatencyRank.Proofs.History.Fits

/-!
A book that is saved is loaded as it was. Every book that comes from a file, whatever the file held,
keeps each record under the record's own address and within the widths of its fields; so the text of
the snapshot is read back as the same records, and these are filed as they stood.
-/

namespace LatencyRank

namespace HistoryBook

section Loading

variable {disk : Disk} {path : String} {records : List FailureRecord}

theorem find?_enter (records : Keyed FailureRecord) (loaded : List FailureRecord) (key : String) :
    (enter records loaded).find? key =
      ((loaded.filter fun r => r.ip = key).getLast?).or (records.find? key) := by
  induction loaded generalizing records with
  | nil => rfl
  | cons r rest ih =>
    have step : enter records (r :: rest) = enter (records.insert r.ip r) rest := rfl
    rw [step, ih, Keyed.find?_insert]
    by_cases same : r.ip = key
    · rw [if_pos same.symm, List.filter_cons_of_pos (by simpa using same), List.getLast?_cons]
      cases (rest.filter fun r => r.ip = key).getLast? <;> rfl
    · rw [if_neg fun h => same h.symm, List.filter_cons_of_neg (by simpa using same)]

theorem find?_load (disk : Disk) (path : String) (window : Int) (cap : Nat) (key : String) :
    (load disk path window cap).records.find? key =
      (((readRecords? disk path).getD []).filter fun r => r.ip = key).getLast? := by
  have same : (load disk path window cap).records =
      enter .empty ((readRecords? disk path).getD []) := rfl
  rw [same, find?_enter, Keyed.find?_empty, Option.or_none]

theorem fits_of_readRecords? (read : readRecords? disk path = some records) :
    ∀ r ∈ records, r.Fits := by
  simp only [readRecords?, Option.bind_eq_bind, Option.bind_eq_some_iff] at read
  obtain ⟨bytes, -, value, -, read⟩ := read
  exact FailureRecord.fits_of_listOfJson? read

end Loading

section Sound

/-- Every record stands under its own address and fits, and so does the limit of the counters. -/
structure Sound (b : HistoryBook) : Prop where
  own : ∀ key r, b.records.find? key = some r → r.ip = key ∧ r.Fits
  width : b.cap ≤ Unsigned.greatest32

def Entry.Timely : Entry → Prop
  | .failed _ now | .fastFailed _ now => Signed.InRange now
  | .succeeded _ => True

variable {b : HistoryBook} {entry : Entry} {cap : Nat}

theorem ip_change (entry : Entry) (cap : Nat) (r : FailureRecord) : (entry.change cap r).ip = r.ip := by
  cases entry with
  | failed ip now => exact FailureRecord.ip_fail cap now r
  | fastFailed ip now => exact FailureRecord.ip_fail cap now r
  | succeeded ip => exact FailureRecord.ip_succeed r

theorem fits_change (timely : entry.Timely) (width : cap ≤ Unsigned.greatest32) {r : FailureRecord}
    (fits : r.Fits) : (entry.change cap r).Fits := by
  cases entry with
  | failed ip now => exact FailureRecord.fits_fail fits width timely
  | fastFailed ip now => exact FailureRecord.fits_fastFail fits width timely
  | succeeded ip => exact FailureRecord.fits_succeed fits

theorem Sound.record (sound : b.Sound) (ip : String) : (b.record ip).ip = ip ∧ (b.record ip).Fits := by
  unfold HistoryBook.record
  cases known : b.records.find? ip with
  | none => exact ⟨rfl, FailureRecord.fits_blank ip⟩
  | some r => exact sound.own ip r known

theorem sound_load (disk : Disk) (path : String) (window : Int) (width : cap ≤ Unsigned.greatest32) :
    (load disk path window cap).Sound := by
  refine ⟨fun key r found => ?_, max_le width (by decide)⟩
  rw [find?_load] at found
  have member := List.mem_of_getLast? found
  rw [List.mem_filter, decide_eq_true_iff] at member
  refine ⟨member.2, ?_⟩
  cases read : readRecords? disk path with
  | none =>
    rw [read] at member
    exact absurd member.1 List.not_mem_nil
  | some records =>
    rw [read, Option.getD_some] at member
    exact fits_of_readRecords? read r member.1

theorem Sound.note (sound : b.Sound) (timely : entry.Timely) : (b.note entry).Sound := by
  have same : (b.note entry).cap = b.cap := by rw [note_eq]
  refine ⟨fun key r found => ?_, same ▸ sound.width⟩
  rw [find?_note] at found
  split at found
  · rename_i asked
    obtain ⟨ip, fits⟩ := sound.record entry.ip
    cases found
    rw [ip_change, ip]
    exact ⟨asked.symm, fits_change timely sound.width fits⟩
  · exact sound.own key r found

theorem Sound.clear (sound : b.Sound) : b.clear.Sound :=
  ⟨fun key r found => (by cases found), sound.width⟩

end Sound

section Tracked

/-- The books that a book loaded from a disk comes to. -/
inductive Tracked (disk : Disk) (path : String) (window : Int) (cap : Nat) : HistoryBook → Prop where
  | loaded : Tracked disk path window cap (.load disk path window cap)
  | noted {b : HistoryBook} (tracked : Tracked disk path window cap b) (entry : Entry)
      (timely : entry.Timely) : Tracked disk path window cap (b.note entry)
  | cleared {b : HistoryBook} (tracked : Tracked disk path window cap b) :
      Tracked disk path window cap b.clear

variable {disk : Disk} {path : String} {window : Int} {cap : Nat} {b : HistoryBook}

theorem sound_of_tracked (width : cap ≤ Unsigned.greatest32) (tracked : Tracked disk path window cap b) :
    b.Sound := by
  induction tracked with
  | loaded => exact sound_load disk path window width
  | noted _ entry timely ih => exact ih.note timely
  | cleared _ ih => exact ih.clear

theorem path_of_tracked (tracked : Tracked disk path window cap b) : b.path = some path := by
  induction tracked with
  | loaded => rfl
  | noted _ entry _ ih => rw [note_eq, ih]
  | cleared _ ih => exact ih

end Tracked

section Saving

variable {b : HistoryBook} {before after : Disk} {path : String}

theorem read?_of_save (kept : b.path = some path) (saved : b.save before = (after, .ok ())) :
    after.read? path = some b.snapshot.toUTF8 := by
  unfold save at saved
  rw [kept] at saved
  dsimp only at saved
  split at saved
  · cases saved
  · rename_i written drafted
    split at saved
    · cases saved
    · rename_i takes
      split at saved
      · cases saved
      · rename_i renamed moved
        cases saved
        have whole := Disk.read?_of_write? drafted
        rw [Disk.taken_of_takes (by simpa using takes)] at whole
        exact Disk.read?_of_rename? whole moved

theorem mem_toList {r : FailureRecord} : r ∈ b.toList ↔ ∃ key, b.records.find? key = some r := by
  rw [toList, List.mem_mergeSort, List.mem_map]
  constructor
  · rintro ⟨⟨key, r⟩, member, rfl⟩
    exact ⟨key, Keyed.find?_eq_some_iff.mpr member⟩
  · rintro ⟨key, found⟩
    exact ⟨(key, r), Keyed.find?_eq_some_iff.mp found, rfl⟩

theorem readRecords?_snapshot (sound : b.Sound) (holds : after.read? path = some b.snapshot.toUTF8) :
    readRecords? after path = some b.toList := by
  have fits : ∀ r ∈ b.toList, r.Fits := fun r member => by
    obtain ⟨key, found⟩ := mem_toList.mp member
    exact (sound.own key r found).2
  simp only [readRecords?, holds, Option.bind_eq_bind, Option.bind_some]
  rw [snapshot, Json.ofBytes?_pretty, Option.bind_some, FailureRecord.listOfJson?_reread fits]

/-- One record at most has an address, so the last one that is filed is the one that was there. -/
theorem getLast?_toList (sound : b.Sound) (key : String) :
    (b.toList.filter fun r => r.ip = key).getLast? = b.records.find? key := by
  have only : ∀ r ∈ b.toList.filter fun r => r.ip = key, b.records.find? key = some r := by
    intro r member
    rw [List.mem_filter, decide_eq_true_iff] at member
    obtain ⟨key', found⟩ := mem_toList.mp member.1
    rwa [← member.2, (sound.own key' r found).1]
  cases last : (b.toList.filter fun r => r.ip = key).getLast? with
  | some r => exact (only r (List.mem_of_getLast? last)).symm
  | none =>
    rw [List.getLast?_eq_none_iff] at last
    cases found : b.records.find? key with
    | none => rfl
    | some r =>
      have member : r ∈ b.toList.filter fun r => r.ip = key :=
        List.mem_filter.mpr ⟨mem_toList.mpr ⟨key, found⟩, decide_eq_true (sound.own key r found).1⟩
      rw [last] at member
      exact absurd member List.not_mem_nil

/-- A book that was saved is loaded with the same under every address. -/
theorem find?_load_of_save (sound : b.Sound) (kept : b.path = some path)
    (saved : b.save before = (after, .ok ())) (window : Int) (cap : Nat) (key : String) :
    (load after path window cap).records.find? key = b.records.find? key := by
  rw [find?_load, readRecords?_snapshot sound (read?_of_save kept saved), Option.getD_some]
  exact getLast?_toList sound key

end Saving

section RoundTrip

variable {disk : Disk} {path : String} {window : Int} {cap : Nat} {b : HistoryBook}

/-- A file loads as nothing unless it is a list in which every item is a record. -/
theorem load_of_undecodable (spoilt : ∀ bytes items, disk.read? path = some bytes →
    Json.ofBytes? bytes = some (.array items) → ∃ item ∈ items, FailureRecord.ofJson? item = none) :
    (load disk path window cap).records = .empty := by
  have none' : readRecords? disk path = none := by
    rw [Option.eq_none_iff_forall_ne_some]
    intro records read
    simp only [readRecords?, Option.bind_eq_bind, Option.bind_eq_some_iff] at read
    obtain ⟨bytes, holds, value, decoded, read⟩ := read
    obtain ⟨items, rfl, same⟩ := FailureRecord.listOfJson?_eq_some.mp read
    obtain ⟨item, member, spoilt⟩ := spoilt bytes items holds decoded
    have absent : none ∈ items.map FailureRecord.ofJson? := spoilt ▸ List.mem_map_of_mem member
    rw [same, List.mem_map] at absent
    obtain ⟨r, -, impossible⟩ := absent
    cases impossible
  unfold load
  rw [none']
  rfl

/-- Whatever the file held that a book came from and whatever was noted since: each record stands under
its own address; once the book is saved, loading gives the same records again. Of several records for
one address the last is loaded, a file that is not decoded as a whole gives none, and the disk stays as
it is when a book is loaded. That a failure rate is loaded as it was saved rests on numbers being read
with one correct rounding, as `Decimal.toBinary64` has it. -/
theorem snapshot_round_trip (width : cap ≤ Unsigned.greatest32)
    (tracked : Tracked disk path window cap b) :
    (∀ key r, b.records.find? key = some r → r.ip = key) ∧
    (∀ before after : Disk, b.save before = (after, .ok ()) → ∀ (window' : Int) (cap' : Nat),
      (load after path window' cap').records.entries.Perm b.records.entries ∧
      ∀ key, (load after path window' cap').records.find? key = b.records.find? key) ∧
    (∀ records, readRecords? disk path = some records → ∀ key,
      (load disk path window cap).records.find? key =
        (records.filter fun r => r.ip = key).getLast?) ∧
    ((∀ bytes items, disk.read? path = some bytes → Json.ofBytes? bytes = some (.array items) →
        ∃ item ∈ items, FailureRecord.ofJson? item = none) →
      (load disk path window cap).records = .empty) ∧
    ∀ {σ : Type} (s : Session σ) (settings : Settings) (base : String) (prober : Prober σ),
      (s.use settings base prober).disk = s.drop.disk := by
  have sound := sound_of_tracked width tracked
  refine ⟨fun key r found => (sound.own key r found).1, ?_, ?_, load_of_undecodable,
    fun s settings base prober => rfl⟩
  · intro before after saved window' cap'
    have same := find?_load_of_save sound (path_of_tracked tracked) saved window' cap'
    exact ⟨Keyed.entries_perm same, same⟩
  · intro records read key
    rw [find?_load, read, Option.getD_some]

theorem save_empty (kept : b.path = some "w") : ∃ after, b.save .empty = (after, .ok ()) := by
  have single : Disk.names "w" = ["w"] := by
    rw [Disk.names_eq]
    decide
  have draft (children : List (String × DiskTree)) :
      ({ root := .directory children } : Disk).locate (draftPath "w") = some ["w.tmp"] :=
    Disk.locate_name children (by decide) (by rw [Disk.names_eq]; decide) (by decide) (by decide)
  have target (children : List (String × DiskTree)) :
      ({ root := .directory children } : Disk).locate "w" = some ["w"] :=
    Disk.locate_name children (by decide) single (by decide) (by decide)
  have above : Disk.parent "w" = "" := by
    rw [Disk.parent, single]
    decide
  have parent : Disk.empty.makeParent "w" = .empty := by
    rw [Disk.makeParent, above, Disk.makeDirectory, if_pos (by decide), Disk.names_eq]
    rfl
  unfold save
  rw [kept]
  generalize b.snapshot.toUTF8 = bytes
  have written : Disk.empty.write? (draftPath "w") bytes =
      some { root := .directory [("w.tmp", .file bytes)] } := by
    rw [Disk.empty, Disk.write?, draft]
    rfl
  have renamed : ({ root := .directory [("w.tmp", .file bytes)] } : Disk).rename? (draftPath "w") "w" =
      some { root := .directory [("w", .file bytes)] } := by
    rw [Disk.rename?, draft, target]
    rfl
  have takes : Disk.empty.takes bytes = true := rfl
  dsimp only
  rw [parent, written, takes]
  dsimp only
  rw [renamed]
  exact ⟨_, rfl⟩

/-- An address with quotes, a backslash and a new line, on an empty disk. -/
theorem snapshot_round_trip_of_quotes :
    ∃ after, ((load .empty "w" 1000 3).note (.failed "\"\\\n" 5)).save .empty = (after, .ok ()) ∧
      ∀ key, (load after "w" 1000 3).records.find? key =
        ((load .empty "w" 1000 3).note (.failed "\"\\\n" 5)).records.find? key := by
  obtain ⟨after, saved⟩ := save_empty (b := (load .empty "w" 1000 3).note (.failed "\"\\\n" 5)) rfl
  exact ⟨after, saved, fun key => ((snapshot_round_trip (by decide)
    (.noted .loaded (.failed "\"\\\n" 5) (show Signed.InRange 5 by decide))).2.1 _ after saved 1000 3).2 key⟩

end RoundTrip

end HistoryBook

end LatencyRank
