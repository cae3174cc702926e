import Mathlib
import LatencyRank.Ranker.Session
import LatencyRank.Proofs.Disk.Changes
import LatencyRank.Proofs.Settings.Document

/-!
The configuration file. What is saved is loaded as it was, an existing file is never touched by
loading, and a save that cannot open the file does no more to the disk than to make directories on the
way to it. Once the file is open what it held is gone: a write that fails leaves a beginning of the text.
-/

namespace LatencyRank

namespace SettingsDocument

variable {d : SettingsDocument} {disk after : Disk} {base : String}

section Paths

theorem endsIn_pathBelow (base : String) : ∃ above name, Disk.EndsIn (pathBelow base) above name := by
  have relative : "config.json".startsWith "/" = false := by cbv
  rw [pathBelow]
  generalize Disk.resolve base "config" = directory
  unfold Disk.resolve
  rw [if_neg (by rw [relative]; exact Bool.false_ne_true)]
  split
  · exact Disk.endsIn_append directory (by decide) (by decide)
  · exact Disk.endsIn_append (directory ++ "/") (by decide) (by decide)

end Paths

section Saving

theorem write_of_save (saved : d.save disk base = (after, .ok ())) :
    let grown := disk.makeParent (pathBelow base)
    grown.write? (pathBelow base) d.toJson.pretty.toUTF8 = some after ∧
      grown.takes d.toJson.pretty.toUTF8 = true := by
  intro grown
  unfold save at saved
  dsimp only at saved
  split at saved
  · rename_i written wrote
    split at saved
    · rename_i takes
      cases saved
      exact ⟨wrote, takes⟩
    · cases saved
  · cases saved

/-- A save fails where the file cannot be opened, or does not take all of the text. -/
theorem failed_of_save {error : StoreError} (saved : d.save disk base = (after, .error error)) :
    let grown := disk.makeParent (pathBelow base)
    let bytes := d.toJson.pretty.toUTF8
    (error = .create (pathBelow base) ∧ after = grown ∧ grown.write? (pathBelow base) bytes = none) ∨
      (error = .write ∧ grown.takes bytes = false ∧ grown.write? (pathBelow base) bytes = some after) := by
  intro grown bytes
  unfold save at saved
  dsimp only at saved
  split at saved
  · rename_i written wrote
    split at saved
    · cases saved
    · rename_i cut
      cases saved
      exact .inr ⟨rfl, Bool.eq_false_iff.mpr cut, wrote⟩
  · rename_i refused
    cases saved
    exact .inl ⟨rfl, rfl, refused⟩

theorem read?_of_save (saved : d.save disk base = (after, .ok ())) :
    after.read? (pathBelow base) = some d.toJson.pretty.toUTF8 := by
  obtain ⟨wrote, takes⟩ := write_of_save saved
  rw [Disk.read?_of_write? wrote, Disk.taken_of_takes takes]

/-- What a save leaves that could not open the file: everything as it was, but for directories on the
way. -/
structure Refused (before after : Disk) (path : String) : Prop where
  grows : Disk.Grows before after
  spared : Disk.Spared before after path
  read : after.read? path = before.read? path

/-- What a save leaves that failed when the file was open. -/
structure Overrun (before after : Disk) (path : String) : Prop where
  limited : before.fileLimit ≠ none
  others : ∀ location, after.locate path ≠ some location →
    after.entry? location = before.entry? location ∨ Disk.Raised before after path location

theorem refused_of_save (saved : d.save disk base = (after, .error (.create (pathBelow base)))) :
    Refused disk after (pathBelow base) := by
  obtain ⟨-, rfl, refused⟩ | ⟨other, -⟩ := failed_of_save saved
  · have grows := disk.grows_makeParent (pathBelow base)
    obtain ⟨above, name, ends⟩ := endsIn_pathBelow base
    refine ⟨grows, Disk.spared_of_makeParent ends (fun _ => rfl) fun _ _ => rfl, ?_⟩
    have nothing := Disk.read?_of_write?_eq_none refused
    rw [nothing]
    cases old : disk.read? (pathBelow base) with
    | none => rfl
    | some bytes => rw [grows.read? old] at nothing; cases nothing
  · cases other

theorem overrun_of_save (saved : d.save disk base = (after, .error .write)) :
    Overrun disk after (pathBelow base) := by
  obtain ⟨other, -⟩ | ⟨-, cut, wrote⟩ := failed_of_save saved
  · cases other
  · obtain ⟨keeps, location, located, -, -, others⟩ := Disk.entry?_of_write? wrote
    constructor
    case limited =>
      intro unlimited
      rw [Disk.takes, Disk.fileLimit_makeParent, unlimited] at cut
      cases cut
    case others =>
      intro elsewhere apart
      have other : elsewhere ≠ location := by
        rintro rfl
        exact apart ((keeps.locate _).trans located)
      rw [others elsewhere other]
      exact (Disk.entry?_makeParent disk (pathBelow base) elsewhere).imp_right fun raised =>
        raised.congr keeps

end Saving

section Loading

theorem load_of_read? {bytes : ByteArray} (holds : disk.read? (pathBelow base) = some bytes)
    (decoded : (Json.ofBytes? bytes).bind ofJson? = some d) : load disk base = (disk, .ok d) := by
  simp only [load, Disk.holds_of_read? holds, if_true, holds, decoded]

theorem load_of_save (fits : d.ping.Fits) (saved : d.save disk base = (after, .ok ())) :
    load after base = (after, .ok d) :=
  load_of_read? (read?_of_save saved) (ofJson?_ofBytes?_pretty fits)

theorem disk_of_load (holds : disk.holds (pathBelow base) = true) : (load disk base).1 = disk := by
  simp only [load, holds, if_true]
  split
  · rfl
  · split <;> rfl

theorem load_of_missing (missing : disk.holds (pathBelow base) = false) :
    load disk base =
      ((save {} disk base).1, (save {} disk base).2.map fun _ => ({} : SettingsDocument)) := by
  simp only [load, missing, Bool.false_eq_true, if_false]

theorem load_cases (missing : disk.holds (pathBelow base) = false) :
    (∃ error, (load disk base).2 = .error error) ∨
      ∃ after, save {} disk base = (after, .ok ()) ∧ load disk base = (after, .ok {}) := by
  rw [load_of_missing missing]
  cases saved : save {} disk base with
  | mk after outcome =>
    cases outcome with
    | error error => exact .inl ⟨error, rfl⟩
    | ok _ => exact .inr ⟨after, rfl, rfl⟩

theorem grows_of_load {error : StoreError} (loaded : load disk base = (after, .error error))
    (whole : error ≠ .write) : Disk.Grows disk after := by
  cases present : disk.holds (pathBelow base) with
  | true =>
    have same := disk_of_load present
    rw [loaded] at same
    exact same ▸ .refl after
  | false =>
    rw [load_of_missing present] at loaded
    cases saved : save {} disk base with
    | mk written outcome =>
      rw [saved] at loaded
      cases outcome with
      | error failure =>
        cases loaded
        obtain ⟨rfl, -⟩ | ⟨cut, -⟩ := failed_of_save saved
        · exact (refused_of_save saved).grows
        · exact absurd cut whole
      | ok _ => cases loaded

end Loading

section RoundTrip

def afterLoads (base : String) (loads : Nat) (disk : Disk) : Disk :=
  (fun disk => (load disk base).1)^[loads] disk

theorem afterLoads_eq (loaded : load after base = (after, .ok d)) (loads : Nat) :
    afterLoads base loads after = after := by
  apply Function.iterate_fixed
  rw [loaded]

/-- Every document that can be written is loaded as it was saved, and its settings are the same
however often they are normalized. A save that cannot open the file leaves every file as it is and the path
where it led; it fails otherwise only when the file does not take all of the text, and leaves every other
place as it is then too. Loading leaves the disk as it is if something is at the path; otherwise it fails
or leaves a file that every later load reads the defaults from. -/
theorem settings_round_trip (disk : Disk) (base : String) (d : SettingsDocument) (fits : d.ping.Fits) :
    (∀ after, d.save disk base = (after, .ok ()) →
      load after base = (after, .ok d) ∧ loadEffective after base = (after, .ok d.ping.normalized)) ∧
    (d.ping.normalized.normalized = d.ping.normalized ∧
      ∀ {σ : Type} (home : String) (files : Disk) (prober : Prober σ) (memory : σ) (clock : WallClock),
        (Ranker.make d.ping.normalized home files prober memory clock).settings = d.ping.normalized) ∧
    (∀ after error, d.save disk base = (after, .error error) →
      (error = .create (pathBelow base) ∧ Refused disk after (pathBelow base)) ∨
        (error = .write ∧ Overrun disk after (pathBelow base))) ∧
    (disk.holds (pathBelow base) = true → (load disk base).1 = disk) ∧
    (disk.holds (pathBelow base) = false →
      (∃ error, (load disk base).2 = .error error) ∨
      ∃ after, load disk base = (after, .ok {}) ∧
        after.read? (pathBelow base) = some ({} : SettingsDocument).toJson.pretty.toUTF8 ∧
        ∀ loads, load (afterLoads base loads after) base = (after, .ok {})) ∧
    ∀ after error, load disk base = (after, .error error) → error ≠ .write → Disk.Grows disk after := by
  refine ⟨?_, ⟨Settings.normalized_normalized _, ?_⟩, ?_, disk_of_load, ?_, fun _ _ => grows_of_load⟩
  · intro after saved
    have loaded := load_of_save fits saved
    refine ⟨loaded, ?_⟩
    rw [loadEffective, loaded]
    rfl
  · intro σ home files prober memory clock
    exact Settings.normalized_normalized _
  · intro after error saved
    obtain ⟨rfl, -⟩ | ⟨rfl, -⟩ := failed_of_save saved
    · exact .inl ⟨rfl, refused_of_save saved⟩
    · exact .inr ⟨rfl, overrun_of_save saved⟩
  · intro missing
    obtain failed | ⟨after, saved, loaded⟩ := load_cases missing
    · exact .inl failed
    · have again : load after base = (after, .ok {}) := load_of_save Settings.fits_usual saved
      refine .inr ⟨after, loaded, read?_of_save saved, fun loads => ?_⟩
      rw [afterLoads_eq again]
      exact again

theorem pathBelow_nothing : pathBelow "" = "config/config.json" := by cbv

theorem names_below_nothing : Disk.names (pathBelow "") = ["config", "config.json"] := by
  rw [pathBelow_nothing, Disk.names_eq]
  decide

theorem locate_below_nothing (top : disk.isDirectory [] = true)
    (directory : disk.isDirectory ["config"] = true) :
    disk.locate (pathBelow "") = some ["config", "config.json"] := by
  have may : Disk.mayFollow (pathBelow "") = true := by
    rw [pathBelow_nothing]
    decide
  have moves : Disk.stays "config" = false := by decide
  have moves' : Disk.stays "config.json" = false := by decide
  rw [Disk.locate, if_pos may, names_below_nothing]
  simp [Disk.follow, top, directory, moves, moves']

theorem save_empty (d : SettingsDocument) : ∃ after, d.save .empty "" = (after, .ok ()) := by
  have above : Disk.parent (pathBelow "") = "config" := by
    rw [Disk.parent, names_below_nothing]
    decide
  have parent : Disk.empty.makeParent (pathBelow "") =
      { root := .directory [("config", .directory [])] } := by
    rw [Disk.makeParent, above, Disk.makeDirectory, if_pos (by decide), Disk.names_eq]
    rfl
  generalize text : d.toJson.pretty.toUTF8 = bytes
  have written : ({ root := .directory [("config", .directory [])] } : Disk).write? (pathBelow "") bytes =
      some { root := .directory [("config", .directory [("config.json", .file bytes)])] } := by
    rw [Disk.write?, locate_below_nothing rfl rfl]
    rfl
  unfold save
  dsimp only
  rw [parent, text, written]
  exact ⟨_, rfl⟩

/-- A log level with quotes and a new line, and no limit on anything. -/
theorem settings_round_trip_of_quotes :
    let greatest : Settings := {
      concurrency := Unsigned.greatest64, historyPath := some "a\\b", strategy := .minimum }
    ∃ after, (⟨greatest, ⟨"\"\n"⟩⟩ : SettingsDocument).save .empty "" = (after, .ok ()) ∧
      load after "" = (after, .ok ⟨greatest, ⟨"\"\n"⟩⟩) := by
  intro greatest
  obtain ⟨after, saved⟩ := save_empty ⟨greatest, ⟨"\"\n"⟩⟩
  have fits : greatest.Fits := { Settings.fits_usual with concurrency := Nat.le_refl _ }
  exact ⟨after, saved, ((settings_round_trip .empty "" _ fits).1 after saved).1⟩

theorem pretty_ne_empty (value : Json) : value.pretty.toUTF8 ≠ .empty := by
  intro nothing
  have read := Json.ofBytes?_pretty value
  have unread : Json.ofBytes? .empty = none := by cbv
  rw [nothing, unread] at read
  cases read

/-- A disk that has no file but the configuration below no base at all. -/
def holding (bytes : ByteArray) (fileLimit : Option Nat) : Disk :=
  { root := .directory [("config", .directory [("config.json", .file bytes)])], fileLimit }

theorem read?_holding (bytes : ByteArray) (fileLimit : Option Nat) :
    (holding bytes fileLimit).read? (pathBelow "") = some bytes :=
  Disk.read?_eq_some.mpr ⟨_, locate_below_nothing rfl rfl, rfl⟩

/-- Where files take nothing, saving empties the one that was there. -/
theorem save_holding (d : SettingsDocument) (old : ByteArray) :
    d.save (holding old (some 0)) "" = (holding .empty (some 0), .error .write) := by
  have located : (holding old (some 0)).locate (pathBelow "") = some ["config", "config.json"] :=
    locate_below_nothing rfl rfl
  obtain ⟨above, name, ends⟩ := endsIn_pathBelow ""
  have cut : (holding old (some 0)).takes d.toJson.pretty.toUTF8 = false := by
    have some' : d.toJson.pretty.toUTF8.size ≠ 0 :=
      fun none' => pretty_ne_empty _ (ByteArray.size_eq_zero_iff.mp none')
    exact decide_eq_false (by omega)
  have nothing : (holding old (some 0)).taken d.toJson.pretty.toUTF8 = .empty := by
    rw [Disk.taken, cut]
    simp [holding]
  unfold save
  dsimp only
  rw [Disk.makeParent_of_locate ends located, Disk.write?, located, cut, nothing]
  rfl

theorem pathBelow_around : pathBelow "x/.." = "x/../config/config.json" := by cbv

theorem names_below_around : Disk.names (pathBelow "x/..") = ["x", "..", "config", "config.json"] := by
  rw [pathBelow_around, Disk.names_eq]
  decide

/-- A disk with a directory where the configuration should be, and others at its top. -/
def misplaced (others : List (String × DiskTree)) : Disk :=
  { root := .directory (others ++ [("config", .directory [("config.json", .directory [])])]) }

/-- The way down into a directory and up again is there only once that directory is. -/
theorem locate_around :
    (misplaced []).locate (pathBelow "x/..") = none ∧
      (misplaced [("x", .directory [])]).locate (pathBelow "x/..") = some ["config", "config.json"] := by
  have may : Disk.mayFollow (pathBelow "x/..") = true := by
    rw [pathBelow_around]
    decide
  rw [Disk.locate, Disk.locate, if_pos may, if_pos may, names_below_around]
  exact ⟨rfl, rfl⟩

/-- A save makes it, and then the other directory is in the way. -/
theorem save_misplaced (d : SettingsDocument) : d.save (misplaced []) "x/.." =
    (misplaced [("x", .directory [])], .error (.create (pathBelow "x/.."))) := by
  have above : Disk.parent (pathBelow "x/..") = "x/../config" := by
    rw [Disk.parent, names_below_around]
    decide
  have made : (misplaced []).makeParent (pathBelow "x/..") = misplaced [("x", .directory [])] := by
    rw [Disk.makeParent, above, Disk.makeDirectory, if_pos (by decide), Disk.names_eq]
    rfl
  unfold save
  dsimp only
  rw [made, Disk.write?, locate_around.2]
  rfl

/-- A save that fails can change what is at the path. Where a missing directory is made on the way down
and up again, the path leads to what it did not lead to before; and where the file does not take the text,
what it held is lost. -/
theorem failed_save_changes_path :
    ((misplaced []).lookup (pathBelow "x/..") = none ∧
      (save {} (misplaced []) "x/..").2 = .error (.create (pathBelow "x/..")) ∧
      (save {} (misplaced []) "x/..").1.lookup (pathBelow "x/..") = some .directory) ∧
    ((holding "old".toUTF8 (some 0)).read? (pathBelow "") = some "old".toUTF8 ∧
      (save {} (holding "old".toUTF8 (some 0)) "").2 = .error .write ∧
      (save {} (holding "old".toUTF8 (some 0)) "").1.read? (pathBelow "") = some .empty) ∧
    ¬∀ (d : SettingsDocument) (before : Disk) (base : String), d.ping.Fits →
      (d.save before base).2 ≠ .ok () →
      (d.save before base).1.lookup (pathBelow base) = before.lookup (pathBelow base) := by
  have missing : (misplaced []).lookup (pathBelow "x/..") = none := by
    rw [Disk.lookup, locate_around.1]
    rfl
  have present : (misplaced [("x", .directory [])]).lookup (pathBelow "x/..") = some .directory := by
    rw [Disk.lookup, locate_around.2]
    rfl
  rw [save_misplaced, save_holding]
  refine ⟨⟨missing, rfl, present⟩, ⟨read?_holding _ _, rfl, read?_holding _ _⟩, fun spared => ?_⟩
  have failed : (save {} (misplaced []) "x/..").2 ≠ .ok () := by
    rw [save_misplaced]
    exact fun ok => (by cases ok)
  have same := spared {} (misplaced []) "x/.." Settings.fits_usual failed
  rw [save_misplaced, present, missing] at same
  cases same

end RoundTrip

end SettingsDocument

end LatencyRank
