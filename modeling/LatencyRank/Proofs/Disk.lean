import Mathlib
import LatencyRank.Disk
import LatencyRank.Proofs.Keyed

/-!
What a change at one location does to a disk. It is seen at that location and below it, and nowhere
else. A change of files alone leaves every directory where it is, so every path still leads where it
led before.
-/

namespace LatencyRank

namespace DiskTree

section Children

variable {name other : String} {children : List (String × DiskTree)}

/-- What a directory holds after something is put under a name, or taken away there. -/
theorem lookup_replaced (new : Option DiskTree) (name other : String)
    (children : List (String × DiskTree)) :
    (new.toList.map (name, ·) ++ children.filter fun child => child.1 ≠ name).lookup other =
      if other = name then new else children.lookup other := by
  cases new with
  | none => exact Keyed.lookup_filter_ne name other children
  | some tree =>
    rw [Option.toList_some, List.map_singleton, List.singleton_append, Keyed.lookup_entry,
      Keyed.lookup_filter_ne]
    split <;> rfl

theorem lookup_changed (change : DiskTree → DiskTree) (name other : String)
    (children : List (String × DiskTree)) :
    (children.map fun child => if child.1 = name then (name, change child.2) else child).lookup other =
      if other = name then (children.lookup other).map change else children.lookup other := by
  induction children with
  | nil => simp
  | cons child rest ih =>
    rw [List.map_cons]
    by_cases same : child.1 = name
    · rw [if_pos same, Keyed.lookup_entry, Keyed.lookup_entry, ih, same]
      split_ifs <;> rfl
    · rw [if_neg same, Keyed.lookup_entry, Keyed.lookup_entry, ih]
      by_cases hit : other = child.1
      · rw [if_pos hit, if_neg fun asked => same (hit.symm.trans asked), if_pos hit]
      · simp only [if_neg hit]

end Children

section Change

variable {new : Option DiskTree} {name : String} {rest location elsewhere : Location}
  {tree : DiskTree} {children : List (String × DiskTree)}

theorem at?_cons (name : String) (rest : Location) (children : List (String × DiskTree)) :
    (directory children).at? (name :: rest) = (children.lookup name).bind (at? rest) := by
  rw [at?]
  cases children.lookup name <;> rfl

theorem at?_append (before behind : Location) (tree : DiskTree) :
    tree.at? (before ++ behind) = (tree.at? before).bind (at? behind) := by
  induction before generalizing tree with
  | nil => rfl
  | cons name rest ih =>
    cases tree with
    | file bytes => rfl
    | directory children =>
      rw [List.cons_append, at?_cons, at?_cons, Option.bind_assoc]
      congr 1
      funext child
      exact ih child

theorem set_cons (new : Option DiskTree) (name next : String) (rest : Location)
    (children : List (String × DiskTree)) :
    (directory children).set new (name :: next :: rest) =
      directory (children.map fun child =>
        if child.1 = name then (name, child.2.set new (next :: rest)) else child) := rfl

theorem at?_set (new : Option DiskTree) (some' : location ≠ [])
    (parent : tree.at? location.dropLast = some (directory children)) :
    (tree.set new location).at? location = new := by
  induction location generalizing tree with
  | nil => exact absurd rfl some'
  | cons name rest ih =>
    cases tree with
    | file bytes => cases rest <;> cases parent
    | directory kids =>
      cases rest with
      | nil =>
        rw [set, at?_cons, lookup_replaced, if_pos rfl]
        cases new <;> rfl
      | cons next rest =>
        rw [List.dropLast_cons_cons, at?_cons, Option.bind_eq_some_iff] at parent
        obtain ⟨child, found, parent⟩ := parent
        rw [set_cons, at?_cons, lookup_changed, if_pos rfl, found]
        exact ih (List.cons_ne_nil _ _) parent

theorem entry_at?_set (new : Option DiskTree) (apart : ¬location <+: elsewhere) :
    ((tree.set new location).at? elsewhere).map entry = (tree.at? elsewhere).map entry := by
  induction location generalizing tree elsewhere with
  | nil => exact absurd List.nil_prefix apart
  | cons name rest ih =>
    cases tree with
    | file bytes => cases rest <;> rfl
    | directory kids =>
      cases elsewhere with
      | nil => cases rest <;> rfl
      | cons other below =>
        cases rest with
        | nil =>
          have different : other ≠ name := fun same =>
            apart (List.cons_prefix_cons.mpr ⟨same.symm, List.nil_prefix⟩)
          rw [set, at?_cons, at?_cons, lookup_replaced, if_neg different]
        | cons next rest =>
          rw [set_cons, at?_cons, at?_cons, lookup_changed]
          by_cases same : other = name
          · have below' : ¬(next :: rest) <+: below := fun before =>
              apart (List.cons_prefix_cons.mpr ⟨same.symm, before⟩)
            rw [if_pos same]
            cases kids.lookup other with
            | none => rfl
            | some child => exact ih below'
          · rw [if_neg same]

end Change

end DiskTree

namespace Disk

variable {d d' : Disk} {location elsewhere below : Location}

section Entries

theorem isDirectory_eq_true : d.isDirectory location = true ↔ d.entry? location = some .directory := by
  unfold isDirectory
  split <;> simp_all

theorem isDirectory_eq_false : d.isDirectory location = false ↔ d.entry? location ≠ some .directory := by
  rw [Ne, ← isDirectory_eq_true, Bool.not_eq_true]

theorem at?_of_isDirectory (directory : d.isDirectory location = true) :
    ∃ children, d.root.at? location = some (.directory children) := by
  rw [isDirectory_eq_true, entry?, Option.map_eq_some_iff] at directory
  obtain ⟨tree, found, entry⟩ := directory
  cases tree with
  | file bytes => cases entry
  | directory children => exact ⟨children, found⟩

theorem entry?_put (entry : DiskEntry) (some' : location ≠ [])
    (parent : d.isDirectory location.dropLast = true) :
    Disk.entry? (d.put location entry) location = some entry := by
  obtain ⟨children, found⟩ := at?_of_isDirectory parent
  rw [put, entry?, DiskTree.at?_set _ some' found]
  cases entry <;> rfl

theorem entry?_erase (some' : location ≠ []) (parent : d.isDirectory location.dropLast = true) :
    Disk.entry? (d.erase location) location = none := by
  obtain ⟨children, found⟩ := at?_of_isDirectory parent
  rw [erase, entry?, DiskTree.at?_set _ some' found]
  rfl

theorem entry?_put_of_apart (entry : DiskEntry) (apart : ¬location <+: elsewhere) :
    Disk.entry? (d.put location entry) elsewhere = d.entry? elsewhere :=
  DiskTree.entry_at?_set _ apart

theorem entry?_erase_of_apart (apart : ¬location <+: elsewhere) :
    Disk.entry? (d.erase location) elsewhere = d.entry? elsewhere :=
  DiskTree.entry_at?_set _ apart

theorem isDirectory_above (before : location <+: elsewhere)
    (directory : d.isDirectory elsewhere = true) : d.isDirectory location = true := by
  obtain ⟨below, rfl⟩ := before
  obtain ⟨children, found⟩ := at?_of_isDirectory directory
  rw [DiskTree.at?_append, Option.bind_eq_some_iff] at found
  obtain ⟨tree, found, inside⟩ := found
  rw [isDirectory_eq_true, entry?, found]
  cases tree with
  | file bytes => cases below <;> cases inside
  | directory children => rfl

end Entries

section Directories

def KeepsDirectories (d d' : Disk) : Prop := ∀ location, d'.isDirectory location = d.isDirectory location

/-- A change at a location that is no directory, before or after, keeps all directories. -/
theorem keeps_of_vacant (vacant : d.isDirectory location = false)
    (vacant' : d'.isDirectory location = false)
    (apart : ∀ elsewhere, ¬location <+: elsewhere → d'.entry? elsewhere = d.entry? elsewhere) :
    KeepsDirectories d d' := by
  intro elsewhere
  by_cases before : location <+: elsewhere
  · have none' : ∀ disk : Disk, disk.isDirectory location = false →
        disk.isDirectory elsewhere = false := fun disk vacant => by
      by_contra directory
      rw [isDirectory_above before (by simpa using directory)] at vacant
      cases vacant
    rw [none' d vacant, none' d' vacant']
  · rw [isDirectory, isDirectory, apart elsewhere before]

theorem keeps_put (bytes : ByteArray) (some' : location ≠ [])
    (parent : d.isDirectory location.dropLast = true) (vacant : d.isDirectory location = false) :
    KeepsDirectories d (d.put location (.file bytes)) := by
  refine keeps_of_vacant vacant ?_ fun elsewhere => entry?_put_of_apart _
  rw [isDirectory, entry?_put _ some' parent]

theorem keeps_erase (some' : location ≠ []) (parent : d.isDirectory location.dropLast = true)
    (vacant : d.isDirectory location = false) : KeepsDirectories d (d.erase location) := by
  refine keeps_of_vacant vacant ?_ fun elsewhere => entry?_erase_of_apart
  rw [isDirectory, entry?_erase some' parent]

theorem KeepsDirectories.follow (keeps : KeepsDirectories d d') (names : List String)
    (location : Location) : d'.follow names location = d.follow names location := by
  induction names generalizing location with
  | nil => rfl
  | cons name rest ih => simp only [Disk.follow, keeps location, ih]

theorem KeepsDirectories.locate (keeps : KeepsDirectories d d') (path : String) :
    d'.locate path = d.locate path := by
  unfold Disk.locate
  rw [keeps.follow]

end Directories

section Paths

variable {path source target : String} {bytes : ByteArray}

def onward (name : String) (start : Location) : Location :=
  if stays name then start else if name = ".." then start.dropLast else start ++ [name]

theorem follow_cons_eq_some {name : String} {rest : List String} {start : Location} :
    d.follow (name :: rest) start = some location ↔
      d.isDirectory start = true ∧ d.follow rest (onward name start) = some location := by
  rw [follow, onward]
  cases d.isDirectory start with
  | false => simp
  | true =>
    simp only [Bool.not_true, Bool.false_eq_true, if_false, true_and]
    split_ifs <;> rfl

theorem parent_of_follow {names : List String} {start : Location}
    (proper : start = [] ∨ d.isDirectory start.dropLast = true)
    (followed : d.follow names start = some location) :
    location = [] ∨ d.isDirectory location.dropLast = true := by
  induction names generalizing start with
  | nil =>
    cases followed
    exact proper
  | cons name rest ih =>
    obtain ⟨directory, followed⟩ := follow_cons_eq_some.mp followed
    refine ih ?_ followed
    unfold onward
    split
    · exact proper
    · split
      · refine .inr (isDirectory_above ?_ directory)
        exact (List.dropLast_prefix _).trans (List.dropLast_prefix _)
      · rw [List.dropLast_concat]
        exact .inr directory

theorem locate_name (children : List (String × DiskTree)) {name : String} (may : mayFollow path = true)
    (single : names path = [name]) (moves : stays name = false) (down : name ≠ "..") :
    ({ root := .directory children } : Disk).locate path = some [name] := by
  have top : ({ root := .directory children } : Disk).isDirectory [] = true := rfl
  rw [locate, if_pos may, single]
  simp [follow, top, moves, down]

theorem splitOnAux_slash (before part rest : List Char) (done : List String) :
    (String.ofList (before ++ part ++ rest)).splitOnAux "/" ⟨String.utf8Len before⟩
        ⟨String.utf8Len before + String.utf8Len part⟩ 0 done =
      done.reverse ++ (List.splitOnPPrepend (· == '/') rest part.reverse).map String.ofList := by
  -- on what is still to be read; `part` is the piece under way, and positions count bytes
  induction rest generalizing before part done with
  | nil =>
    have atEnd := (String.atEnd_of_valid (before ++ part) []).mpr rfl
    have piece := String.extract_of_valid before part []
    rw [String.utf8Len_append] at atEnd
    rw [String.splitOnAux, if_pos atEnd]
    dsimp only
    rw [piece]
    simp
  | cons c rest ih =>
    have inside := (String.atEnd_of_valid (before ++ part) (c :: rest)).not.mpr (List.cons_ne_nil _ _)
    have char := String.get_of_valid (before ++ part) (c :: rest)
    have step := String.next_of_valid (before ++ part) c rest
    have piece := String.extract_of_valid before part (c :: rest)
    rw [String.utf8Len_append] at inside char step
    rw [String.splitOnAux, if_neg inside, char, List.headD_cons, List.splitOnPPrepend_cons_eq_if]
    have separator : String.Pos.Raw.get "/" 0 = '/' := rfl
    by_cases slash : c = '/'
    · subst slash
      rw [step]
      have back : (⟨String.utf8Len before + String.utf8Len part + Char.utf8Size '/'⟩ :
          String.Pos.Raw).unoffsetBy (String.Pos.Raw.next "/" 0) =
            ⟨String.utf8Len before + String.utf8Len part⟩ := rfl
      have next := ih (before ++ part ++ ['/']) [] (String.ofList part :: done)
      rw [if_pos (by decide), if_pos (by decide), if_pos (by decide), back, piece]
      simpa only [List.splitOnP, String.utf8Len_append, String.utf8Len_cons, String.utf8Len_nil,
        Nat.zero_add, Nat.add_zero, Nat.add_assoc, List.append_assoc, List.cons_append, List.nil_append,
        List.reverse_cons, List.reverse_nil, List.reverse_reverse, List.map_cons] using next
    · have next := ih before (part ++ [c]) done
      have still : (⟨String.utf8Len before + String.utf8Len part⟩ : String.Pos.Raw).unoffsetBy 0 =
          ⟨String.utf8Len before + String.utf8Len part⟩ := rfl
      have other : ¬ (c == '/') = true := by simpa using slash
      rw [separator, if_neg other, if_neg other, still, step]
      simpa [Nat.add_assoc] using next

theorem names_eq (path : String) : names path = (path.toList.splitOn '/').map String.ofList := by
  have parts := splitOnAux_slash [] [] path.toList []
  simpa [names, String.splitOn, List.splitOn] using parts

theorem names_ne_nil (path : String) : names path ≠ [] := by
  rw [names_eq]
  exact (List.map_eq_nil_iff.not).mpr (List.splitOn_ne_nil _ _)

theorem isDirectory_top (located : d.locate path = some location) : d.isDirectory [] = true := by
  unfold locate at located
  split at located
  · cases steps : names path with
    | nil => exact absurd steps (names_ne_nil path)
    | cons name rest =>
      rw [steps, follow] at located
      cases top : d.isDirectory [] with
      | true => rfl
      | false =>
        rw [top] at located
        cases located
  · cases located

theorem parent_of_locate (located : d.locate path = some location)
    (vacant : d.isDirectory location = false) :
    location ≠ [] ∧ d.isDirectory location.dropLast = true := by
  have top := isDirectory_top located
  have some' : location ≠ [] := by
    rintro rfl
    rw [top] at vacant
    cases vacant
  unfold locate at located
  split at located
  · exact ⟨some', (parent_of_follow (.inl rfl) located).resolve_left some'⟩
  · cases located

theorem read?_eq_some : d.read? path = some bytes ↔
    ∃ location, d.locate path = some location ∧ d.entry? location = some (.file bytes) := by
  unfold read? lookup
  cases d.locate path with
  | none => simp
  | some location =>
    rw [Option.bind_some]
    constructor
    · intro holds
      split at holds
      · rename_i file
        cases holds
        exact ⟨location, rfl, file⟩
      · cases holds
    · rintro ⟨_, same, file⟩
      cases same
      rw [file]

theorem taken_of_takes (takes : d.takes bytes = true) : d.taken bytes = bytes := by
  rw [taken, if_pos takes]

theorem put_of_write? (written : d.write? path bytes = some d') :
    ∃ location, d.locate path = some location ∧ d.isDirectory location = false ∧
      d' = d.put location (.file (d.taken bytes)) := by
  unfold write? at written
  split at written
  · cases written
  · rename_i location located
    refine ⟨location, located, ?_⟩
    split at written
    · cases written
    · rename_i entry
      exact ⟨isDirectory_eq_false.mpr (by simp [entry]), (Option.some.inj written).symm⟩
    · rename_i entry
      split at written
      · exact ⟨isDirectory_eq_false.mpr (by simp [entry]), (Option.some.inj written).symm⟩
      · cases written

theorem read?_of_write? (written : d.write? path bytes = some d') :
    d'.read? path = some (d.taken bytes) := by
  obtain ⟨location, located, vacant, rfl⟩ := put_of_write? written
  obtain ⟨some', parent⟩ := parent_of_locate located vacant
  exact read?_eq_some.mpr ⟨location, ((keeps_put _ some' parent vacant).locate path).trans located,
    entry?_put _ some' parent⟩

theorem put_of_rename? (renamed : d.rename? source target = some d') :
    ∃ old new bytes, d.locate source = some old ∧ d.locate target = some new ∧
      d.entry? old = some (.file bytes) ∧ d.isDirectory new = false ∧
      d' = (d.erase old).put new (.file bytes) := by
  unfold rename? at renamed
  split at renamed
  · rename_i old new located located'
    split at renamed
    · cases renamed
    · rename_i bytes file vacant
      split at renamed
      · refine ⟨old, new, bytes, located, located', file, ?_, (Option.some.inj renamed).symm⟩
        exact isDirectory_eq_false.mpr vacant
      · cases renamed
    · cases renamed
  · cases renamed

theorem read?_of_rename? (holds : d.read? source = some bytes)
    (renamed : d.rename? source target = some d') : d'.read? target = some bytes := by
  obtain ⟨old, new, moved, located, located', file, vacant, rfl⟩ := put_of_rename? renamed
  obtain ⟨place, found, entry⟩ := read?_eq_some.mp holds
  have same : moved = bytes := by
    rw [located] at found
    cases found
    rw [file] at entry
    cases entry
    rfl
  subst same
  have vacant' : d.isDirectory old = false := isDirectory_eq_false.mpr (by simp [file])
  obtain ⟨some', parent⟩ := parent_of_locate located vacant'
  obtain ⟨some'', parent'⟩ := parent_of_locate located' vacant
  -- the file is taken away first, and the way to the new path is still there then
  have erased := keeps_erase some' parent vacant'
  have parent'' : (d.erase old).isDirectory new.dropLast = true := (erased _).trans parent'
  have put' := keeps_put moved some'' parent'' ((erased new).trans vacant)
  exact read?_eq_some.mpr ⟨new, (put'.locate target).trans ((erased.locate target).trans located'),
    entry?_put _ some'' parent''⟩

end Paths

section Growth

/-- Nothing but directories came to the disk, and nothing went. -/
structure Grows (d d' : Disk) : Prop where
  keeps : ∀ location entry, d.entry? location = some entry → d'.entry? location = some entry
  files : ∀ location bytes, d'.entry? location = some (.file bytes) →
    d.entry? location = some (.file bytes)

variable {path : String} {entry : DiskEntry}

theorem Grows.refl (d : Disk) : Grows d d := ⟨fun _ _ here => here, fun _ _ here => here⟩

theorem Grows.trans {d'' : Disk} (first : Grows d d') (then' : Grows d' d'') : Grows d d'' where
  keeps location entry here := then'.keeps location entry (first.keeps location entry here)
  files location bytes here := first.files location bytes (then'.files location bytes here)

theorem entry?_below (nothing : d.entry? location = none) (below : Location) :
    d.entry? (location ++ below) = none := by
  unfold entry? at nothing ⊢
  rw [Option.map_eq_none_iff] at nothing
  rw [DiskTree.at?_append, nothing]
  rfl

theorem grows_put (some' : location ≠ []) (parent : d.isDirectory location.dropLast = true)
    (nothing : d.entry? location = none) : Grows d (d.put location .directory) where
  keeps elsewhere entry here := by
    by_cases before : location <+: elsewhere
    · obtain ⟨below, rfl⟩ := before
      have vacant := entry?_below nothing below
      rw [vacant] at here
      cases here
    · have same := entry?_put_of_apart (d := d) .directory before
      exact same.trans here
  files elsewhere bytes here := by
    by_cases before : location <+: elsewhere
    · -- the new directory is empty, so no file stands in it
      obtain ⟨below, rfl⟩ := before
      obtain ⟨children, found⟩ := at?_of_isDirectory parent
      rw [put, entry?, DiskTree.at?_append, DiskTree.at?_set _ some' found] at here
      cases below with
      | nil => cases here
      | cons name rest => cases here
    · have same := entry?_put_of_apart (d := d) .directory before
      exact same.symm.trans here

/-- What holds where no directory is made, and with each that is made, holds when all are made. -/
theorem makeAlong_of_put {motive : Disk → Disk → Prop} (none' : ∀ d, motive d d)
    (put : ∀ (d d' : Disk) (location : Location), location ≠ [] →
      d.isDirectory location.dropLast = true → d.entry? location = none →
      motive (d.put location .directory) d' → motive d d')
    (names : List String) (d : Disk) (start : Location) : motive d (d.makeAlong names start) := by
  induction names generalizing d start with
  | nil => exact none' d
  | cons name rest ih =>
    rw [makeAlong]
    split
    · exact none' d
    · rename_i directory
      have directory : d.isDirectory start = true := by simpa using directory
      split
      · exact ih d start
      · split
        · exact ih d start.dropLast
        · dsimp only
          split
          · exact ih d (start ++ [name])
          · rename_i nothing
            split
            · exact none' d
            · have parent : d.isDirectory (start ++ [name]).dropLast = true := by
                rwa [List.dropLast_concat]
              exact put d _ _ (by simp) parent nothing (ih _ (start ++ [name]))

theorem grows_makeAlong (names : List String) (d : Disk) (start : Location) :
    Grows d (d.makeAlong names start) :=
  makeAlong_of_put (motive := Grows) .refl
    (fun _ _ _ some' parent nothing more => (grows_put some' parent nothing).trans more) names d start

theorem grows_makeParent (d : Disk) (path : String) : Grows d (d.makeParent path) := by
  unfold makeParent makeDirectory
  split
  · exact grows_makeAlong _ d []
  · exact .refl d

theorem fileLimit_makeParent (d : Disk) (path : String) :
    fileLimit (d.makeParent path) = d.fileLimit := by
  unfold makeParent makeDirectory
  split
  · exact makeAlong_of_put (motive := fun d d' => d'.fileLimit = d.fileLimit) (fun _ => rfl)
      (fun _ _ _ _ _ _ more => more) _ d []
  · rfl

theorem Grows.isDirectory (grows : Grows d d') (directory : d.isDirectory location = true) :
    d'.isDirectory location = true :=
  isDirectory_eq_true.mpr (grows.keeps _ _ (isDirectory_eq_true.mp directory))

theorem Grows.follow (grows : Grows d d') {names : List String} {start : Location}
    (followed : d.follow names start = some location) : d'.follow names start = some location := by
  induction names generalizing start with
  | nil => exact followed
  | cons name rest ih =>
    obtain ⟨directory, followed⟩ := follow_cons_eq_some.mp followed
    exact follow_cons_eq_some.mpr ⟨grows.isDirectory directory, ih followed⟩

theorem Grows.lookup (grows : Grows d d') (here : d.lookup path = some entry) :
    d'.lookup path = some entry := by
  unfold Disk.lookup Disk.locate at *
  split at here
  · rename_i may
    rw [Option.bind_eq_some_iff] at here
    obtain ⟨location, followed, here⟩ := here
    rw [if_pos may, grows.follow followed]
    exact grows.keeps location entry here
  · cases here

theorem read?_of_write?_eq_none {bytes : ByteArray} (refused : d.write? path bytes = none) :
    d.read? path = none := by
  rw [Option.eq_none_iff_forall_ne_some]
  intro old holds
  obtain ⟨location, located, file⟩ := read?_eq_some.mp holds
  rw [write?, located] at refused
  dsimp only at refused
  rw [file] at refused
  cases refused

theorem holds_of_read? {bytes : ByteArray} (holds : d.read? path = some bytes) :
    d.holds path = true := by
  obtain ⟨location, located, file⟩ := read?_eq_some.mp holds
  unfold Disk.holds Disk.lookup
  rw [located, Option.bind_some, file]
  rfl

theorem Grows.read? (grows : Grows d d') {bytes : ByteArray} (holds : d.read? path = some bytes) :
    d'.read? path = some bytes := by
  have here : d.lookup path = some (.file bytes) := by
    obtain ⟨location, located, file⟩ := read?_eq_some.mp holds
    rw [Disk.lookup, located]
    exact file
  rw [Disk.read?, grows.lookup here]

end Growth

end Disk

end LatencyRank
