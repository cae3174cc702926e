import Mathlib
import LatencyRank.Proofs.Disk.Names

/-!
What a disk has been changed by, place by place. Writing and moving a file touch the places of the paths
and no other; making directories touches places on the way where nothing was.
-/

namespace LatencyRank.Disk

variable {d d' : Disk} {location elsewhere above : Location} {entry : DiskEntry}

section Files

variable {path source target : String} {bytes : ByteArray}

theorem isDirectory_of_entry (here : d.entry? location = some entry) (before : above <+: location)
    (other : above ≠ location) : d.isDirectory above = true := by
  obtain ⟨below, rfl⟩ := before
  unfold entry? at here
  rw [Option.map_eq_some_iff] at here
  obtain ⟨tree, found, -⟩ := here
  rw [DiskTree.at?_append, Option.bind_eq_some_iff] at found
  obtain ⟨around, found, inside⟩ := found
  rw [isDirectory_eq_true, entry?, found]
  cases around with
  | file bytes =>
    cases below with
    | nil => exact absurd (List.append_nil above).symm other
    | cons name rest => cases inside
  | directory children => rfl

theorem lookup_of_level {names' : List String} {name : String} (ends : EndsIn path names' name)
    (level : ".." ∉ names path) (located : d'.locate path = some location)
    (here : d.entry? location = some entry) : d.lookup path = some entry := by
  obtain ⟨may, dir, above', -, rfl⟩ := (locate_eq_some_iff ends).mp located
  have level' : ".." ∉ names' := fun up => level (ends.split ▸ List.mem_append_left _ up)
  have shape := eq_of_follow level' above'
  have directory := isDirectory_of_entry here (List.prefix_append dir [name]) (by simp)
  have followed : d.follow names' [] = some dir := by
    rw [shape] at directory ⊢
    exact follow_of_isDirectory level' directory
  rw [lookup, (locate_eq_some_iff ends).mpr ⟨may, dir, followed, directory, rfl⟩]
  exact here

/-- Nothing stands below a place that is no directory, so a change there is seen at that place alone. -/
theorem entry?_of_vacant (vacant : d.isDirectory location = false)
    (vacant' : d'.isDirectory location = false)
    (apart : ∀ elsewhere, ¬location <+: elsewhere → d'.entry? elsewhere = d.entry? elsewhere)
    (other : elsewhere ≠ location) : d'.entry? elsewhere = d.entry? elsewhere := by
  by_cases before : location <+: elsewhere
  · have nothing (disk : Disk) (vacant : disk.isDirectory location = false) :
        disk.entry? elsewhere = none := by
      rw [Option.eq_none_iff_forall_ne_some]
      intro entry here
      rw [isDirectory_of_entry here before other.symm] at vacant
      cases vacant
    rw [nothing d vacant, nothing d' vacant']
  · exact apart elsewhere before

theorem entry?_of_write? (written : d.write? path bytes = some d') :
    KeepsDirectories d d' ∧ ∃ location, d.locate path = some location ∧
      d.isDirectory location = false ∧ d'.entry? location = some (.file (d.taken bytes)) ∧
      ∀ elsewhere, elsewhere ≠ location → d'.entry? elsewhere = d.entry? elsewhere := by
  obtain ⟨location, located, vacant, rfl⟩ := put_of_write? written
  obtain ⟨some', parent⟩ := parent_of_locate located vacant
  have keeps := keeps_put (d.taken bytes) some' parent vacant
  refine ⟨keeps, location, located, vacant, entry?_put _ some' parent, fun elsewhere other => ?_⟩
  exact entry?_of_vacant vacant ((keeps location).trans vacant) (fun _ => entry?_put_of_apart _) other

theorem entry?_of_rename? (renamed : d.rename? source target = some d') :
    KeepsDirectories d d' ∧ ∃ old new bytes, d.locate source = some old ∧ d.locate target = some new ∧
      d.entry? old = some (.file bytes) ∧ d.isDirectory new = false ∧
      d'.entry? new = some (.file bytes) ∧ (old ≠ new → d'.entry? old = none) ∧
      ∀ elsewhere, elsewhere ≠ old → elsewhere ≠ new → d'.entry? elsewhere = d.entry? elsewhere := by
  obtain ⟨old, new, bytes, located, located', file, vacant, rfl⟩ := put_of_rename? renamed
  have vacant' : d.isDirectory old = false := isDirectory_eq_false.mpr (by simp [file])
  obtain ⟨some', parent⟩ := parent_of_locate located vacant'
  obtain ⟨some'', parent'⟩ := parent_of_locate located' vacant
  -- first the file is taken away, and nothing else is; then it is put, and nothing else is
  have erased := keeps_erase some' parent vacant'
  have gone (elsewhere : Location) (other : elsewhere ≠ old) :
      entry? (d.erase old) elsewhere = d.entry? elsewhere :=
    entry?_of_vacant vacant' ((erased old).trans vacant') (fun _ => entry?_erase_of_apart) other
  have parent'' : (d.erase old).isDirectory new.dropLast = true := (erased _).trans parent'
  have vacant'' : (d.erase old).isDirectory new = false := (erased new).trans vacant
  have moved := keeps_put bytes some'' parent'' vacant''
  have put (elsewhere : Location) (other : elsewhere ≠ new) :
      entry? ((d.erase old).put new (.file bytes)) elsewhere = entry? (d.erase old) elsewhere :=
    entry?_of_vacant vacant'' ((moved new).trans vacant'') (fun _ => entry?_put_of_apart _) other
  refine ⟨fun place => (moved place).trans (erased place), old, new, bytes, located, located', file, vacant,
    entry?_put _ some'' parent'', fun other => ?_, fun elsewhere other other' => ?_⟩
  · rw [put old other]
    exact entry?_erase some' parent
  · rw [put elsewhere other', gone elsewhere other]

end Files

section Directories

theorem Grows.eq_none (grows : Grows d d') (nothing : d'.entry? location = none) :
    d.entry? location = none := by
  rw [Option.eq_none_iff_forall_ne_some]
  intro entry here
  rw [grows.keeps location entry here] at nothing
  cases nothing

theorem entry?_put_directory (some' : location ≠ []) (parent : d.isDirectory location.dropLast = true)
    (nothing : d.entry? location = none) (other : elsewhere ≠ location) :
    entry? (d.put location .directory) elsewhere = d.entry? elsewhere := by
  by_cases before : location <+: elsewhere
  · obtain ⟨below, rfl⟩ := before
    obtain ⟨children, found⟩ := at?_of_isDirectory parent
    rw [entry?_below nothing, entry?, put, DiskTree.at?_append, DiskTree.at?_set _ some' found]
    cases below with
    | nil => exact absurd (List.append_nil location) other
    | cons name rest => rfl
  · exact entry?_put_of_apart _ before

/-- A directory that was made where nothing was, on the way that names lead. -/
structure RaisedAlong (before after : Disk) (names : List String) (start location : Location) : Prop where
  nothing : before.entry? location = none
  directory : after.isDirectory location = true
  passed : ∃ front, front <+: names ∧ after.follow front start = some location

variable {name : String} {rest : List String} {start next : Location}

theorem RaisedAlong.behind (raised : RaisedAlong d d' rest next location)
    (step : d'.follow [name] start = some next) : RaisedAlong d d' (name :: rest) start location := by
  obtain ⟨front, before, followed⟩ := raised.passed
  refine { raised with passed := ⟨name :: front, List.cons_prefix_cons.mpr ⟨rfl, before⟩, ?_⟩ }
  rw [← List.singleton_append, follow_append, step]
  exact followed

theorem raised_of_put (some' : next ≠ []) (parent : d.isDirectory next.dropLast = true)
    (nothing : d.entry? next = none) (further : Grows (d.put next .directory) d')
    (step : d'.follow [name] start = some next)
    (behind : d'.entry? location = entry? (d.put next .directory) location ∨
      RaisedAlong (d.put next .directory) d' rest next location) :
    d'.entry? location = d.entry? location ∨ RaisedAlong d d' (name :: rest) start location := by
  rcases behind with same | raised
  · by_cases new : location = next
    · subst new
      have made := isDirectory_eq_true.mpr (entry?_put .directory some' parent)
      exact .inr ⟨nothing, further.isDirectory made, [name],
        List.cons_prefix_cons.mpr ⟨rfl, List.nil_prefix⟩, step⟩
    · exact .inl (same.trans (entry?_put_directory some' parent nothing new))
  · have nothing' := (grows_put some' parent nothing).eq_none raised.nothing
    exact .inr (RaisedAlong.behind { raised with nothing := nothing' } step)

/-- Where directories are made along names, nothing changes but for those. -/
theorem entry?_makeAlong (names : List String) (d : Disk) (start location : Location) :
    entry? (d.makeAlong names start) location = d.entry? location ∨
      RaisedAlong d (d.makeAlong names start) names start location := by
  -- on the names; the step that is taken first can still be taken when all is made
  induction names generalizing d start with
  | nil => exact .inl rfl
  | cons name rest ih =>
    rw [makeAlong]
    split
    · exact .inl rfl
    · rename_i directory
      have directory : d.isDirectory start = true := by simpa using directory
      have grown (d' : Disk) (grows : Grows d d') : d'.isDirectory start = true :=
        grows.isDirectory directory
      split
      · rename_i stay
        refine (ih d start).imp_right fun raised => raised.behind ?_
        simp [follow, grown _ (grows_makeAlong rest d start), stay]
      · rename_i moves
        split
        · rename_i up
          refine (ih d start.dropLast).imp_right fun raised => raised.behind ?_
          have moves : stays name = false := by simpa using moves
          simp [follow, grown _ (grows_makeAlong rest d start.dropLast), moves, if_pos up]
        · rename_i down
          have step (d' : Disk) (grows : Grows d d') :
              d'.follow [name] start = some (start ++ [name]) := by
            simp [follow, grown d' grows, moves, down]
          dsimp only
          split
          · exact (ih d (start ++ [name])).imp_right fun raised =>
              raised.behind (step _ (grows_makeAlong rest d _))
          · rename_i nothing
            split
            · exact .inl rfl
            · have some' : start ++ [name] ≠ [] := by simp
              have parent : d.isDirectory (start ++ [name]).dropLast = true := by
                rwa [List.dropLast_concat]
              have further := grows_makeAlong rest (d.put (start ++ [name]) .directory) (start ++ [name])
              have whole := (grows_put some' parent nothing).trans further
              exact raised_of_put some' parent nothing further (step _ whole) (ih _ _)

/-- A directory that was made where nothing was, on the way to the one that a path lies in. -/
def Raised (before after : Disk) (path : String) (location : Location) : Prop :=
  RaisedAlong before after (names (parent path)) [] location

variable {path : String} {names' : List String}

theorem entry?_makeParent (d : Disk) (path : String) (location : Location) :
    entry? (d.makeParent path) location = d.entry? location ∨
      Raised d (d.makeParent path) path location := by
  unfold makeParent makeDirectory
  split
  · exact entry?_makeAlong _ d [] location
  · exact .inl rfl

theorem Raised.congr (raised : Raised d d' path location) {d'' : Disk} (keeps : KeepsDirectories d' d'') :
    Raised d d'' path location := by
  obtain ⟨front, before, followed⟩ := raised.passed
  exact ⟨raised.nothing, (keeps location).trans raised.directory, front, before,
    (keeps.follow front []).trans followed⟩

theorem isDirectory_of_follow (followed : d.follow names' start = some location)
    (directory : d.isDirectory location = true) : d.isDirectory start = true := by
  cases names' with
  | nil =>
    cases followed
    exact directory
  | cons name rest => exact (follow_cons_eq_some.mp followed).1

theorem makeAlong_of_follow (followed : d.follow names' start = some location)
    (directory : d.isDirectory location = true) : d.makeAlong names' start = d := by
  induction names' generalizing start with
  | nil => rfl
  | cons name rest ih =>
    obtain ⟨here, followed⟩ := follow_cons_eq_some.mp followed
    rw [makeAlong, if_neg (by simp [here])]
    rw [onward] at followed
    by_cases stay : stays name = true
    · rw [if_pos stay] at followed ⊢
      exact ih followed
    · rw [if_neg stay] at followed ⊢
      by_cases up : name = ".."
      · rw [if_pos up] at followed ⊢
        exact ih followed
      · rw [if_neg up] at followed ⊢
        have last := isDirectory_eq_true.mp (isDirectory_of_follow followed directory)
        dsimp only
        rw [last]
        exact ih followed

theorem makeParent_of_locate (ends : EndsIn path names' name) (located : d.locate path = some location) :
    d.makeParent path = d := by
  obtain ⟨-, dir, above', directory, -⟩ := (locate_eq_some_iff ends).mp located
  have passed := follow_withoutStays above'
  unfold makeParent makeDirectory
  split
  · rw [names_parent ends]
    split
    · have top := isDirectory_top located
      have stays : d.follow [""] [] = some [] := by
        rw [follow, top]
        rfl
      exact makeAlong_of_follow stays top
    · exact makeAlong_of_follow passed directory
  · rfl

/-- A path without `..` does not lead back to a directory on its own way. -/
theorem not_raised_of_level (ends : EndsIn path names' name) (level : ".." ∉ names path)
    (located : d'.locate path = some location) : ¬Raised d d' path location := by
  intro raised
  obtain ⟨front, before, followed⟩ := raised.passed
  obtain ⟨-, dir, above', -, shape⟩ := (locate_eq_some_iff ends).mp located
  have passed := filter_prefix_of_parent ends before
  have level' : ".." ∉ names' := fun up => level (ends.split ▸ List.mem_append_left _ up)
  have level'' : ".." ∉ front := fun up =>
    level' (List.mem_of_mem_filter (passed.subset (List.mem_filter.mpr ⟨up, by decide⟩)))
  rw [eq_of_follow level' above', eq_of_follow level'' followed] at shape
  have longer := congrArg List.length shape
  have shorter := passed.length_le
  rw [List.length_append, List.length_append, List.length_append, List.length_singleton] at longer
  omega

end Directories

section Sparing

variable {before after : Disk} {path name : String} {above : List String}

/-- What was at the path is there still, and where nothing was nothing is, unless a directory on the way
was missing and the path goes up again by `..`. Wherever it leads, it leads to what was there before or to
a directory that was made. -/
structure Spared (before after : Disk) (path : String) : Prop where
  placed : before.locate path ≠ none → after.lookup path = before.lookup path
  level : ".." ∉ names path → after.lookup path = before.lookup path
  reached : ∀ location, after.locate path = some location →
    after.entry? location = before.entry? location ∨ Raised before after path location

/-- A path is spared if its place is left as making the directories above leaves it. -/
theorem spared_of_makeParent (ends : EndsIn path above name)
    (keeps : KeepsDirectories (before.makeParent path) after)
    (same : ∀ location, after.locate path = some location →
      after.entry? location = entry? (before.makeParent path) location) : Spared before after path := by
  have reached (location : Location) (located : after.locate path = some location) :
      after.entry? location = before.entry? location ∨ Raised before after path location := by
    rw [same location located]
    exact (entry?_makeParent before path location).imp_right fun raised => raised.congr keeps
  have placed (found : before.locate path ≠ none) : after.lookup path = before.lookup path := by
    obtain ⟨location, located⟩ := Option.ne_none_iff_exists'.mp found
    have whole := makeParent_of_locate ends located
    rw [whole] at keeps same
    have located' := (keeps.locate path).trans located
    rw [lookup, lookup, located, located', Option.bind_some, Option.bind_some, same location located']
  refine ⟨placed, fun level => ?_, reached⟩
  cases found : before.locate path with
  | some location => exact placed (by rw [found]; exact Option.some_ne_none location)
  | none =>
    -- what the path led to afterwards it would have led to before
    have nothing : before.lookup path = none := by rw [lookup, found, Option.bind_none]
    rw [nothing, Option.eq_none_iff_forall_ne_some]
    intro entry there
    rw [lookup, Option.bind_eq_some_iff] at there
    obtain ⟨location, located, there⟩ := there
    rcases reached location located with unchanged | raised
    · rw [unchanged] at there
      rw [lookup_of_level ends level located there] at nothing
      cases nothing
    · exact not_raised_of_level ends level located raised

end Sparing

end LatencyRank.Disk
