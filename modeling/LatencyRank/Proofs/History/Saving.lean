import Mathlib
import LatencyRank.Ranker.Session
import LatencyRank.Proofs.Disk.Changes
import LatencyRank.Proofs.History.Interleaving

/-!
What saving a book does to the disk. The draft beside the path takes its place as a whole, or the place is
left as it was; nothing else is touched but the directories above, which are made where they are missing.
A path that goes up again by `..` may lead somewhere only when they are made, and back to one of them.
-/

namespace LatencyRank

namespace HistoryBook

section Draft

variable {path name : String} {above : List String} {d : Disk} {location : Location}

theorem endsIn_draftPath (ends : Disk.EndsIn path above name) :
    Disk.EndsIn (draftPath path) above (name ++ ".tmp") := by
  refine ⟨Disk.names_append ends.split (by decide), ?_, Disk.append_ne (by decide)⟩
  rw [Disk.stays, Bool.or_eq_false_iff, beq_eq_false_iff_ne, beq_eq_false_iff_ne]
  exact ⟨Disk.append_ne (by decide), Disk.append_ne (by decide)⟩

theorem locate_of_draft (ends : Disk.EndsIn path above name)
    (located : d.locate (draftPath path) = some location) :
    ∃ dir, location = dir ++ [name ++ ".tmp"] ∧ d.locate path = some (dir ++ [name]) := by
  obtain ⟨may, dir, above', directory, rfl⟩ := (Disk.locate_eq_some_iff (endsIn_draftPath ends)).mp located
  exact ⟨dir, rfl, (Disk.locate_eq_some_iff ends).mpr
    ⟨Disk.mayFollow_of_append may, dir, above', directory, rfl⟩⟩

theorem draft_ne (ends : Disk.EndsIn path above name)
    (located : d.locate path = some location) : d.locate (draftPath path) ≠ some location := by
  intro drafted
  obtain ⟨dir, rfl, located'⟩ := locate_of_draft ends drafted
  rw [located, Option.some.injEq, List.append_right_inj, List.singleton_inj] at located'
  have longer := congrArg String.length located'
  rw [String.length_append] at longer
  exact absurd longer (by simp)

end Draft

section Effect

variable {b : HistoryBook} {before after : Disk} {path : String} {outcome : Except SnapshotError Unit}

/-- When the directories above are made, saving touches the place of the draft, and if it succeeds that
of the path. -/
theorem entry?_of_save (kept : b.path = some path) (saved : b.save before = (after, outcome)) :
    Disk.KeepsDirectories (before.makeParent path) after ∧
    (∀ location, after.locate (draftPath path) ≠ some location →
      (outcome = .ok () → after.locate path ≠ some location) →
      after.entry? location = Disk.entry? (before.makeParent path) location) ∧
    (outcome = .ok () → ∃ old new, after.locate (draftPath path) = some old ∧
      after.locate path = some new ∧ after.entry? new = some (.file b.snapshot.toUTF8) ∧
      (old ≠ new → after.entry? old = none)) := by
  unfold save at saved
  rw [kept] at saved
  dsimp only at saved
  generalize before.makeParent path = grown at saved ⊢
  split at saved
  · -- no draft was written
    cases saved
    exact ⟨fun _ => rfl, fun _ _ _ => rfl, fun ok => (by cases ok)⟩
  · rename_i written drafted
    obtain ⟨keeps, place, located, vacant, file, others⟩ := Disk.entry?_of_write? drafted
    -- a draft that stays is all that is touched
    have left : ∀ location, written.locate (draftPath path) ≠ some location →
        written.entry? location = grown.entry? location := by
      intro location apart
      refine others location ?_
      rintro rfl
      exact apart ((keeps.locate _).trans located)
    split at saved
    · -- the draft was written in part
      cases saved
      exact ⟨keeps, fun location apart _ => left location apart, fun ok => (by cases ok)⟩
    rename_i takes
    rw [Disk.taken_of_takes (by simpa using takes)] at file
    split at saved
    · -- the draft was written but not moved
      cases saved
      exact ⟨keeps, fun location apart _ => left location apart, fun ok => (by cases ok)⟩
    · rename_i renamed moved
      obtain ⟨keeps', old, new, bytes, located', target, file', vacant', entry, gone, others'⟩ :=
        Disk.entry?_of_rename? moved
      cases saved
      have same : old = place := by
        rw [keeps.locate, located] at located'
        exact (Option.some.inj located').symm
      subst same
      rw [file] at file'
      cases file'
      refine ⟨fun place => (keeps' place).trans (keeps place), fun location apart apart' => ?_, fun _ => ?_⟩
      · rw [keeps'.locate] at apart apart'
        rw [others' location ?_ ?_, left location apart]
        · rintro rfl
          exact apart located'
        · rintro rfl
          exact apart' rfl target
      · exact ⟨old, new, (keeps'.locate _).trans located', (keeps'.locate _).trans target, entry, gone⟩

end Effect

section Atomic

variable {b : HistoryBook} {before after : Disk} {path name : String} {above : List String}
  {outcome : Except SnapshotError Unit}

/-- The path holds all records in the order of their addresses, and the draft is gone. -/
structure Replaced (b : HistoryBook) (after : Disk) (path : String) : Prop where
  list : ∃ records : List FailureRecord, records.Perm (b.records.entries.map Prod.snd) ∧
    records.Pairwise (fun x y => x.ip ≤ y.ip) ∧
    after.lookup path = some (.file (Json.array (records.map FailureRecord.toJson)).pretty.toUTF8)
  clean : after.lookup (draftPath path) = none

theorem replaced_of_save (kept : b.path = some path) (ends : Disk.EndsIn path above name)
    (saved : b.save before = (after, .ok ())) : Replaced b after path := by
  obtain ⟨-, -, effect⟩ := entry?_of_save kept saved
  obtain ⟨old, new, drafted, located, file, gone⟩ := effect rfl
  have apart : old ≠ new := fun same => draft_ne ends located (same ▸ drafted)
  refine ⟨⟨b.toList, perm_toList b, sorted_toList b, ?_⟩, ?_⟩
  · rw [Disk.lookup, located, Option.bind_some, file, snapshot]
  · rw [Disk.lookup, drafted, Option.bind_some, gone apart]

/-- Nothing is touched but the draft, the path if saving succeeds, and missing directories above. -/
theorem entry?_after_save (kept : b.path = some path) (saved : b.save before = (after, outcome))
    (location : Location) : after.entry? location = before.entry? location ∨
      after.locate (draftPath path) = some location ∨
      (outcome = .ok () ∧ after.locate path = some location) ∨
      Disk.Raised before after path location := by
  obtain ⟨keeps, others, -⟩ := entry?_of_save kept saved
  by_cases drafted : after.locate (draftPath path) = some location
  · exact .inr (.inl drafted)
  · by_cases replaced : outcome = .ok () ∧ after.locate path = some location
    · exact .inr (.inr (.inl replaced))
    · rw [others location drafted fun ok located => replaced ⟨ok, located⟩]
      exact (Disk.entry?_makeParent before path location).imp_right fun raised =>
        .inr (.inr (raised.congr keeps))

theorem spared_of_save (kept : b.path = some path) (ends : Disk.EndsIn path above name)
    (saved : b.save before = (after, outcome)) (failed : outcome ≠ .ok ()) :
    Disk.Spared before after path := by
  obtain ⟨keeps, others, -⟩ := entry?_of_save kept saved
  refine Disk.spared_of_makeParent ends keeps fun location located => ?_
  exact others location (draft_ne ends located) fun ok => absurd ok failed

/-- A book without a path is not saved, and a session's save changes nothing of the session but its disk.
With a path whose text ends in its file name, a save that succeeds replaces what was there by the records
in order, and one that fails spares it; the draft lies beside the path, and nothing else is touched but
directories that are made on the way. -/
theorem save_atomic (b : HistoryBook) (before : Disk) :
    (b.path = none → b.save before = (before, .ok ())) ∧
    (∀ {σ : Type} (s : Session σ) (r : Ranker σ), s.current? = some r → r.history = b →
      s.disk = before → s.save = ({ s with disk := (b.save before).1 }, (b.save before).2)) ∧
    ∀ path above name after outcome, b.path = some path → Disk.EndsIn path above name →
      b.save before = (after, outcome) →
      (outcome = .ok () → Replaced b after path) ∧
      (outcome ≠ .ok () → Disk.Spared before after path) ∧
      (∀ location, after.locate (draftPath path) = some location →
        ∃ dir, location = dir ++ [name ++ ".tmp"] ∧ after.locate path = some (dir ++ [name])) ∧
      ∀ location, after.entry? location = before.entry? location ∨
        after.locate (draftPath path) = some location ∨
        (outcome = .ok () ∧ after.locate path = some location) ∨
        Disk.Raised before after path location := by
  refine ⟨fun unkept => ?_, fun s r used => ?_, fun path above name after outcome kept ends saved => ?_⟩
  · rw [save, unkept]
  · rintro rfl rfl
    rw [Session.save, used]
  · refine ⟨?_, spared_of_save kept ends saved, fun location => locate_of_draft ends,
      entry?_after_save kept saved⟩
    rintro rfl
    exact replaced_of_save kept ends saved

/-- A path that is a single name, on an empty disk. -/
theorem save_atomic_of_name : ∃ after,
    ((load .empty "w" 1000 3).note (.failed "8.8.8.8" 5)).save .empty = (after, .ok ()) ∧
      Replaced ((load .empty "w" 1000 3).note (.failed "8.8.8.8" 5)) after "w" := by
  have single : Disk.EndsIn "w" [] "w" := ⟨by rw [Disk.names_eq]; decide, by decide, by decide⟩
  obtain ⟨after, saved⟩ := save_empty (b := (load .empty "w" 1000 3).note (.failed "8.8.8.8" 5)) rfl
  exact ⟨after, saved, ((save_atomic _ .empty).2.2 "w" [] "w" after _ rfl single saved).1 rfl⟩

theorem names_around : Disk.names "a/../a" = ["a", "..", "a"] := by
  rw [Disk.names_eq]
  decide

theorem locate_around (d : Disk) (top : d.isDirectory [] = true) (down : d.isDirectory ["a"] = true) :
    d.locate "a/../a" = some ["a"] ∧ d.locate (draftPath "a/../a") = some ["a.tmp"] := by
  have names : Disk.names (draftPath "a/../a") = ["a", "..", "a.tmp"] := by
    rw [Disk.names_eq]
    decide
  rw [Disk.locate, Disk.locate, if_pos (by decide), if_pos (by decide), names_around, names]
  have moves : Disk.stays "a" = false := by decide
  have moves' : Disk.stays "a.tmp" = false := by decide
  have up : Disk.stays ".." = false := by decide
  simp [Disk.follow, top, down, moves, moves', up]

/-- Where the directory is missing it is made, the draft is written beside it, and then it is in the
way. -/
theorem save_around {b : HistoryBook} (kept : b.path = some "a/../a") : b.save .empty =
    ({ root := .directory [("a.tmp", .file b.snapshot.toUTF8), ("a", .directory [])] },
      .error (.replace "a/../a")) := by
  have above : Disk.parent "a/../a" = "a/.." := by
    rw [Disk.parent, names_around]
    decide
  have made : Disk.empty.makeParent "a/../a" = { root := .directory [("a", .directory [])] } := by
    rw [Disk.makeParent, above, Disk.makeDirectory, if_pos (by decide), Disk.names_eq]
    rfl
  unfold save
  rw [kept]
  generalize b.snapshot.toUTF8 = bytes
  have written : ({ root := .directory [("a", .directory [])] } : Disk).write? (draftPath "a/../a") bytes =
      some { root := .directory [("a.tmp", .file bytes), ("a", .directory [])] } := by
    rw [Disk.write?, (locate_around _ rfl rfl).2]
    rfl
  have stuck : ({ root := .directory [("a.tmp", .file bytes), ("a", .directory [])] } : Disk).rename?
      (draftPath "a/../a") "a/../a" = none := by
    rw [Disk.rename?, (locate_around _ rfl rfl).1, (locate_around _ rfl rfl).2]
    rfl
  have takes : ({ root := .directory [("a", .directory [])] } : Disk).takes bytes = true := rfl
  dsimp only
  rw [made, written, takes]
  dsimp only
  rw [stuck]
  rfl

/-- A path that goes down into a missing directory and up again leads to that directory once it is made,
although the save fails. -/
theorem save_raises_path :
    (Disk.empty.lookup "a/../a" = none ∧
      ((load .empty "a/../a" 1000 3).save .empty).2 = .error (.replace "a/../a") ∧
      ((load .empty "a/../a" 1000 3).save .empty).1.lookup "a/../a" = some .directory) ∧
    ¬∀ (b : HistoryBook) (before : Disk) (path name : String) (above : List String), Made b →
      b.path = some path → Disk.EndsIn path above name → (b.save before).2 ≠ .ok () →
      (b.save before).1.lookup path = before.lookup path := by
  have saved := save_around (b := load .empty "a/../a" 1000 3) rfl
  have ends : Disk.EndsIn "a/../a" ["a", ".."] "a" := ⟨names_around, by decide, by decide⟩
  have missing : Disk.empty.lookup "a/../a" = none := by
    rw [Disk.lookup, Disk.locate, if_pos (by decide), names_around]
    rfl
  have raised : ((load .empty "a/../a" 1000 3).save .empty).1.lookup "a/../a" = some .directory := by
    rw [saved, Disk.lookup, (locate_around _ rfl rfl).1]
    rfl
  refine ⟨⟨missing, by rw [saved], raised⟩, fun spared => ?_⟩
  have failed : ((load .empty "a/../a" 1000 3).save .empty).2 ≠ .ok () := by
    rw [saved]
    exact fun ok => (by cases ok)
  have same := spared (load .empty "a/../a" 1000 3) .empty "a/../a" "a" ["a", ".."]
    (.loaded .empty "a/../a" 1000 3) rfl ends failed
  rw [raised, missing] at same
  cases same

end Atomic

end HistoryBook

end LatencyRank
