import Mathlib
import LatencyRank.Proofs.History.Operations
import LatencyRank.Proofs.History.Snapshot

/-!
Entries about different addresses commute. What is found of an address is what its own entries leave of
it, so entries may be interleaved as one likes; and the snapshot shows nothing of the order in which the
records came to the book, since they are sorted by their addresses and no two have the same.
-/

namespace LatencyRank

namespace HistoryBook

section Entries

def noteAll (b : HistoryBook) (entries : List Entry) : HistoryBook := entries.foldl note b

theorem noteAll_concat (b : HistoryBook) (entries : List Entry) (entry : Entry) :
    b.noteAll (entries ++ [entry]) = (b.noteAll entries).note entry :=
  List.foldl_concat ..

theorem noteAll_eq (b : HistoryBook) (entries : List Entry) :
    b.noteAll entries = { b with records := (b.noteAll entries).records } := by
  induction entries using List.reverseRecOn with
  | nil => rfl
  | append_singleton front entry ih => rw [noteAll_concat, note_eq, ih]

theorem cap_noteAll (b : HistoryBook) (entries : List Entry) : (b.noteAll entries).cap = b.cap := by
  rw [noteAll_eq]

theorem window_noteAll (b : HistoryBook) (entries : List Entry) :
    (b.noteAll entries).window = b.window := by
  rw [noteAll_eq]

theorem path_noteAll (b : HistoryBook) (entries : List Entry) : (b.noteAll entries).path = b.path := by
  rw [noteAll_eq]

/-- What is found of an address is what its own entries leave of it. -/
theorem find?_noteAll (b : HistoryBook) (entries : List Entry) (ip : String) :
    (b.noteAll entries).records.find? ip = (b.noteAll (about ip entries)).records.find? ip := by
  -- on the end of the entries: the last one is kept or left out
  induction entries using List.reverseRecOn with
  | nil => rfl
  | append_singleton front entry ih =>
    rw [noteAll_concat, find?_note, about_concat]
    by_cases same : entry.ip = ip
    · have known : (b.noteAll front).record ip = (b.noteAll (about ip front)).record ip := by
        rw [record, record, ih]
      rw [if_pos same.symm, if_pos same, noteAll_concat, find?_note, if_pos same.symm, same, known,
        cap_noteAll, cap_noteAll]
    · rw [if_neg fun asked => same asked.symm, if_neg same]
      exact ih

theorem about_swap (ip : String) (front back : List Entry) {entry next : Entry}
    (apart : entry.ip ≠ next.ip) :
    about ip (front ++ entry :: next :: back) = about ip (front ++ next :: entry :: back) := by
  unfold about
  rw [List.filter_append, List.filter_append]
  congr 1
  by_cases first : entry.ip = ip
  · have second : ¬next.ip = ip := fun asked => apart (first.trans asked.symm)
    simp [first, second]
  · simp [List.filter_cons, first]

end Entries

section Filing

def Filed (b : HistoryBook) : Prop := ∀ key r, b.records.find? key = some r → r.ip = key

/-- The books there are: empty or from a file at first, then with entries noted and all forgotten. -/
inductive Made : HistoryBook → Prop where
  | opened (window : Int) (cap : Nat) : Made (.inMemory window cap)
  | loaded (disk : Disk) (path : String) (window : Int) (cap : Nat) : Made (.load disk path window cap)
  | noted {b : HistoryBook} (made : Made b) (entry : Entry) : Made (b.note entry)
  | cleared {b : HistoryBook} (made : Made b) : Made b.clear

variable {b b' : HistoryBook}

theorem filed_load (disk : Disk) (path : String) (window : Int) (cap : Nat) :
    (load disk path window cap).Filed := by
  intro key r found
  rw [find?_load] at found
  have member := List.mem_filter.mp (List.mem_of_getLast? found)
  exact of_decide_eq_true member.2

theorem Filed.note (filed : b.Filed) (entry : Entry) : (b.note entry).Filed := by
  intro key r found
  rw [find?_note] at found
  split at found
  · rename_i asked
    have own : (b.record entry.ip).ip = entry.ip := by
      unfold record
      cases known : b.records.find? entry.ip with
      | none => rfl
      | some r => exact filed entry.ip r known
    cases found
    rw [ip_change, own, asked]
  · exact filed key r found

theorem filed_of_made (made : Made b) : b.Filed := by
  induction made with
  | opened window cap => exact fun key r found => (by cases found)
  | loaded disk path window cap => exact filed_load disk path window cap
  | noted _ entry ih => exact ih.note entry
  | cleared _ ih => exact fun key r found => (by cases found)

theorem Made.noteAll (made : Made b) (entries : List Entry) : Made (b.noteAll entries) := by
  induction entries using List.reverseRecOn with
  | nil => exact made
  | append_singleton front entry ih =>
    rw [noteAll_concat]
    exact ih.noted entry

theorem Filed.find?_of_mem (filed : b.Filed) {r : FailureRecord} (member : r ∈ b.toList) :
    b.records.find? r.ip = some r := by
  obtain ⟨key, found⟩ := mem_toList.mp member
  rw [filed key r found]
  exact found

theorem Filed.find?_congr (filed : b.Filed) (filed' : b'.Filed)
    (same : ∀ r, r ∈ b.toList ↔ r ∈ b'.toList) (key : String) :
    b.records.find? key = b'.records.find? key := by
  apply Option.ext
  intro r
  constructor
  · intro found
    have own := filed'.find?_of_mem ((same r).mp (mem_toList.mpr ⟨key, found⟩))
    rwa [filed key r found] at own
  · intro found
    have own := filed.find?_of_mem ((same r).mpr (mem_toList.mpr ⟨key, found⟩))
    rwa [filed' key r found] at own

end Filing

section Order

variable {b b' : HistoryBook}

theorem perm_toList (b : HistoryBook) : b.toList.Perm (b.records.entries.map Prod.snd) :=
  List.mergeSort_perm _ _

theorem sorted_toList (b : HistoryBook) : b.toList.Pairwise fun x y => x.ip ≤ y.ip := by
  have sorted : b.toList.Pairwise fun x y => decide (x.ip ≤ y.ip) = true := by
    refine List.pairwise_mergeSort (fun x y z below above => ?_) (fun x y => ?_) _
    · exact decide_eq_true (le_trans (of_decide_eq_true below) (of_decide_eq_true above))
    · simpa using le_total x.ip y.ip
  exact sorted.imp of_decide_eq_true

/-- Sorting leaves nothing of the order in which the records came: no two have one address. -/
theorem toList_congr (filed : b.Filed)
    (same : ∀ key, b.records.find? key = b'.records.find? key) : b.toList = b'.toList := by
  have perm : b.toList.Perm b'.toList :=
    (perm_toList b).trans (((Keyed.entries_perm same).map _).trans (perm_toList b').symm)
  refine perm.eq_of_pairwise (fun x y member member' below above => ?_) (sorted_toList b)
    (sorted_toList b')
  -- two records that may stand before each other have one address, and so are one
  have found := filed.find?_of_mem member
  have found' := filed.find?_of_mem (perm.mem_iff.mpr member')
  rw [le_antisymm below above, found'] at found
  exact (Option.some.inj found).symm

theorem snapshot_congr (filed : b.Filed)
    (same : ∀ key, b.records.find? key = b'.records.find? key) : b.snapshot = b'.snapshot := by
  rw [snapshot, snapshot, toList_congr filed same]

theorem save_congr (kept : b.path = b'.path) (same : b.snapshot = b'.snapshot) (disk : Disk) :
    b.save disk = b'.save disk := by
  rw [save, save, kept, same]

end Order

section Interleavings

variable {b : HistoryBook}

/-- Entries that leave the order of every address's own entries alone lead to the same records, the same
weights at all times and the same file. The snapshot of a book hangs on the set of its records alone, not
on the order in which they are kept or came. -/
theorem interleavings_agree (made : Made b) :
    (∀ entries entries' : List Entry, (∀ ip, about ip entries = about ip entries') →
      (∀ ip, (b.noteAll entries).records.find? ip = (b.noteAll entries').records.find? ip) ∧
      (∀ ip now, (b.noteAll entries).weight ip now = (b.noteAll entries').weight ip now) ∧
      ∀ disk, (b.noteAll entries).save disk = (b.noteAll entries').save disk) ∧
    (∀ records : Keyed FailureRecord, records.entries.Perm b.records.entries →
      ∀ disk, { b with records }.save disk = b.save disk) ∧
    ∀ b', Made b' → (∀ r, r ∈ b.toList ↔ r ∈ b'.toList) →
      b.snapshot = b'.snapshot ∧
      ∀ path path' before before' after after',
        b.path = some path → b.save before = (after, .ok ()) →
        b'.path = some path' → b'.save before' = (after', .ok ()) →
        ∃ bytes, after.read? path = some bytes ∧ after'.read? path' = some bytes := by
  have filed := filed_of_made made
  refine ⟨fun entries entries' same => ?_, fun records perm disk => ?_, fun b' made' same => ?_⟩
  · -- the same entries of each address
    have found (ip : String) :
        (b.noteAll entries).records.find? ip = (b.noteAll entries').records.find? ip := by
      rw [find?_noteAll, same, ← find?_noteAll]
    refine ⟨found, fun ip now => ?_, fun disk => save_congr ?_ ?_ disk⟩
    · rw [weight, weight, found, window_noteAll, window_noteAll]
    · rw [path_noteAll, path_noteAll]
    · exact snapshot_congr (filed_of_made (made.noteAll entries)) found
  · -- the same records, kept in another order
    have found (key : String) : b.records.find? key = records.find? key := by
      apply Option.ext
      intro r
      rw [Keyed.find?_eq_some_iff, Keyed.find?_eq_some_iff, perm.mem_iff]
    have kept : b.path = { b with records }.path := rfl
    have text : b.snapshot = { b with records }.snapshot := snapshot_congr filed found
    exact (save_congr kept text disk).symm
  · -- another book with the same records, however it came to them
    have text := snapshot_congr filed (filed.find?_congr (filed_of_made made') same)
    refine ⟨text, fun path path' before before' after after' kept saved kept' saved' => ?_⟩
    refine ⟨b.snapshot.toUTF8, read?_of_save kept saved, ?_⟩
    rw [text]
    exact read?_of_save kept' saved'

/-- Two addresses fail in one order and in the other: the book keeps them in different orders and saves
the same file. -/
theorem interleavings_agree_of_two :
    let b := load .empty "w" 1000 3
    let entries := [Entry.failed "b" 1, .failed "a" 2]
    (b.noteAll entries).records.entries.map Prod.fst = ["b", "a"] ∧
      (b.noteAll entries.reverse).records.entries.map Prod.fst = ["a", "b"] ∧
      ∃ after, (b.noteAll entries).save .empty = (after, .ok ()) ∧
        (b.noteAll entries.reverse).save .empty = (after, .ok ()) := by
  intro b entries
  have missing : Disk.empty.read? "w" = none := by cbv
  have blank : b.records = .empty := load_of_undecodable fun bytes items holds => by
    rw [missing] at holds
    cases holds
  have keys (entries : List Entry) : (b.noteAll entries).records =
      (HistoryBook.noteAll ⟨some "w", 1000, 3, .empty⟩ entries).records := by
    rw [← blank]
    rfl
  have same (ip : String) : about ip entries = about ip entries.reverse :=
    about_swap ip [] [] (by decide : "b" ≠ "a")
  obtain ⟨after, saved⟩ := save_empty (b := b.noteAll entries) (path_noteAll _ _)
  refine ⟨?_, ?_, after, saved, ?_⟩
  · rw [keys]
    rfl
  · rw [keys]
    rfl
  · rw [← ((interleavings_agree (.loaded .empty "w" 1000 3)).1 entries _ same).2.2]
    exact saved

end Interleavings

end HistoryBook

end LatencyRank
