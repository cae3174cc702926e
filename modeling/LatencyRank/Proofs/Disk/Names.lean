import Mathlib
import LatencyRank.Proofs.Disk

/-!
Paths by their names. The text of a path is its names with slashes between, so a text behind a path
goes to its last name, and the path of the directory that it lies in has the names before the last. A path
without `..` leads where its names say, if it leads anywhere.
-/

namespace LatencyRank.Disk

section Texts

variable {path name suffix : String} {above names' : List String}

theorem not_mem_of_mem_splitOn {α : Type} [BEq α] [LawfulBEq α] {separator : α} {text piece : List α}
    (member : piece ∈ text.splitOn separator) : separator ∉ piece := by
  -- on the text: a separator ends a piece, and any other letter goes to the first piece of the rest
  induction text generalizing piece with
  | nil =>
    rw [List.splitOn_nil, List.mem_singleton] at member
    rw [member]
    exact List.not_mem_nil
  | cons x rest ih =>
    rw [List.splitOn_cons_eq_if_modifyHead] at member
    split at member
    · rcases List.mem_cons.mp member with rfl | later
      · exact List.not_mem_nil
      · exact ih later
    · rename_i other
      cases pieces : rest.splitOn separator with
      | nil => exact absurd pieces (List.splitOn_ne_nil _ _)
      | cons first others =>
        rw [pieces, List.modifyHead_cons] at member
        rw [pieces] at ih
        rcases List.mem_cons.mp member with rfl | later
        · rw [List.mem_cons, not_or]
          exact ⟨fun same => other (beq_iff_eq.mpr same.symm), ih List.mem_cons_self⟩
        · exact ih (List.mem_cons_of_mem _ later)

theorem slash_not_mem (member : name ∈ names path) : '/' ∉ name.toList := by
  rw [names_eq, List.mem_map] at member
  obtain ⟨piece, member, rfl⟩ := member
  rw [String.toList_ofList]
  exact not_mem_of_mem_splitOn member

theorem intercalate_names (path : String) : "/".intercalate (names path) = path := by
  have slash : "/".toList = ['/'] := rfl
  apply String.toList_inj.mp
  rw [String.toList_intercalate, names_eq, List.map_map, slash]
  have same : String.toList ∘ String.ofList = id := funext fun piece => String.toList_ofList
  rw [same, List.map_id]
  exact List.intercalate_splitOn '/'

theorem names_intercalate (plain : ∀ name ∈ names', '/' ∉ name.toList) (some' : names' ≠ []) :
    names ("/".intercalate names') = names' := by
  have slash : "/".toList = ['/'] := rfl
  rw [names_eq, String.toList_intercalate, slash, List.splitOn_intercalate '/' ?_ (by simpa using some')]
  · rw [List.map_map]
    have same : String.ofList ∘ String.toList = id := funext fun name => String.ofList_toList
    rw [same, List.map_id]
  · intro piece member
    obtain ⟨name, known, rfl⟩ := List.mem_map.mp member
    exact plain name known

theorem intercalate_concat (above : List String) (name suffix : String) :
    "/".intercalate (above ++ [name ++ suffix]) = "/".intercalate (above ++ [name]) ++ suffix := by
  -- a name that stands alone has no slash before it
  by_cases some' : above = []
  · rw [some', List.nil_append, List.nil_append, String.intercalate_singleton,
      String.intercalate_singleton]
  · rw [String.intercalate_append_of_ne_nil some' (List.cons_ne_nil _ _),
      String.intercalate_append_of_ne_nil some' (List.cons_ne_nil _ _), String.intercalate_singleton,
      String.intercalate_singleton, String.append_assoc, String.append_assoc, String.append_assoc]

theorem names_append (split : names path = above ++ [name]) (plain : '/' ∉ suffix.toList) :
    names (path ++ suffix) = above ++ [name ++ suffix] := by
  have text : path ++ suffix = "/".intercalate (above ++ [name ++ suffix]) := by
    rw [intercalate_concat, ← split, intercalate_names]
  rw [text]
  refine names_intercalate (fun other among => ?_) (by simp)
  rcases List.mem_append.mp among with before | last
  · have member : other ∈ names path := split ▸ List.mem_append_left _ before
    exact slash_not_mem member
  · have member : name ∈ names path := split ▸ List.mem_append_right _ List.mem_cons_self
    rw [List.mem_singleton] at last
    rw [last, String.toList_append, List.mem_append, not_or]
    exact ⟨slash_not_mem member, plain⟩

theorem mayFollow_of_append (may : mayFollow (path ++ suffix) = true) : mayFollow path = true := by
  rw [mayFollow, decide_eq_true_iff, String.utf8ByteSize_append, String.toList_append,
    List.mem_append, not_or] at may
  rw [mayFollow, decide_eq_true_iff]
  exact ⟨(Nat.le_add_right _ _).trans may.1, may.2.1⟩

/-- The text of a path ends in its file name. -/
structure EndsIn (path : String) (above : List String) (name : String) : Prop where
  split : names path = above ++ [name]
  moves : stays name = false
  down : name ≠ ".."

theorem append_ne {short : String} (longer : short.length < suffix.length) : name ++ suffix ≠ short := by
  rintro rfl
  rw [String.length_append] at longer
  omega

/-- What is written behind a path makes a file name of its last name, if it is longer than `..`. -/
theorem endsIn_append (path : String) (plain : '/' ∉ suffix.toList) (longer : 2 < suffix.length) :
    ∃ above name, EndsIn (path ++ suffix) above name := by
  have some' := names_ne_nil path
  refine ⟨(names path).dropLast, (names path).getLast some' ++ suffix,
    names_append (List.dropLast_append_getLast some').symm plain, ?_, append_ne longer⟩
  rw [stays, Bool.or_eq_false_iff, beq_eq_false_iff_ne, beq_eq_false_iff_ne]
  exact ⟨append_ne (Nat.zero_lt_of_lt longer), append_ne (Nat.lt_of_succ_lt longer)⟩

theorem prefix_withoutStays (names : List String) : withoutStays names <+: names :=
  List.rdropWhile_prefix stays names

theorem names_parent (ends : EndsIn path above name) :
    names (parent path) = if withoutStays above = [] then [""] else withoutStays above := by
  have last : withoutStays (above ++ [name]) = above ++ [name] :=
    List.rdropWhile_concat_neg _ _ _ (by rw [ends.moves]; exact Bool.false_ne_true)
  rw [parent, ends.split, last, List.dropLast_concat]
  split
  · rename_i none'
    rw [none', String.intercalate_nil, names_eq]
    rfl
  · rename_i some'
    refine names_intercalate (fun name member => ?_) some'
    have member := (prefix_withoutStays above).subset member
    exact slash_not_mem (ends.split ▸ List.mem_append_left _ member)

theorem filter_prefix_of_parent (ends : EndsIn path above name) {front : List String}
    (before : front <+: names (parent path)) :
    (front.filter fun name => !stays name) <+: above.filter fun name => !stays name := by
  rw [names_parent ends] at before
  split at before
  · -- the directory above is where the path starts: its only name stays
    have none' : (front.filter fun name => !stays name) <+: [] := before.filter _
    exact none'.trans List.nil_prefix
  · exact (before.trans (prefix_withoutStays above)).filter _

end Texts

section Ways

variable {d : Disk} {location start dir : Location} {path name suffix : String} {above names' : List String}

theorem follow_append (d : Disk) (front back : List String) (start : Location) :
    d.follow (front ++ back) start = (d.follow front start).bind (d.follow back) := by
  induction front generalizing start with
  | nil => rfl
  | cons name rest ih =>
    simp only [List.cons_append, follow, ih]
    split_ifs <;> rfl

/-- A path whose text ends in its file name leads to that name in a directory. -/
theorem locate_eq_some_iff (ends : EndsIn path above name) : d.locate path = some location ↔
    mayFollow path = true ∧
      ∃ dir, d.follow above [] = some dir ∧ d.isDirectory dir = true ∧ location = dir ++ [name] := by
  have step (dir : Location) :
      d.follow [name] dir = if d.isDirectory dir then some (dir ++ [name]) else none := by
    cases directory : d.isDirectory dir <;> simp [follow, directory, ends.moves, ends.down]
  rw [locate, ends.split, follow_append]
  by_cases may : mayFollow path = true
  · rw [if_pos may, Option.bind_eq_some_iff]
    constructor
    · rintro ⟨dir, above', last⟩
      rw [step] at last
      split at last
      · rename_i directory
        exact ⟨may, dir, above', directory, (Option.some.inj last).symm⟩
      · cases last
    · rintro ⟨-, dir, above', directory, rfl⟩
      exact ⟨dir, above', by rw [step, if_pos directory]⟩
  · rw [if_neg may]
    exact ⟨fun located => (by cases located), fun located => absurd located.1 may⟩

theorem follow_of_stays (still : ∀ name ∈ names', stays name = true)
    (followed : d.follow names' start = some location) : location = start := by
  induction names' with
  | nil =>
    cases followed
    rfl
  | cons name rest ih =>
    obtain ⟨-, followed⟩ := follow_cons_eq_some.mp followed
    rw [onward, if_pos (still name List.mem_cons_self)] at followed
    exact ih (fun other member => still other (List.mem_cons_of_mem _ member)) followed

theorem follow_withoutStays (followed : d.follow names' start = some location) :
    d.follow (withoutStays names') start = some location := by
  have parts : withoutStays names' ++ names'.rtakeWhile stays = names' :=
    List.rdropWhile_append_rtakeWhile ..
  rw [← parts, follow_append, Option.bind_eq_some_iff] at followed
  obtain ⟨middle, first, last⟩ := followed
  rw [follow_of_stays (fun name member => List.mem_rtakeWhile_imp member) last]
  exact first

/-- Without `..` every step goes down by its name or stays. -/
theorem eq_of_follow (level : ".." ∉ names') (followed : d.follow names' start = some location) :
    location = start ++ names'.filter fun name => !stays name := by
  induction names' generalizing start with
  | nil =>
    cases followed
    rw [List.filter_nil, List.append_nil]
  | cons name rest ih =>
    rw [List.mem_cons, not_or] at level
    obtain ⟨-, followed⟩ := follow_cons_eq_some.mp followed
    rw [ih level.2 followed, onward, if_neg fun up : name = ".." => level.1 up.symm]
    by_cases stay : stays name = true
    · rw [if_pos stay, List.filter_cons_of_neg (by simpa using stay)]
    · rw [if_neg stay, List.filter_cons_of_pos (by simpa using stay), List.append_assoc,
        List.singleton_append]

theorem follow_of_isDirectory (level : ".." ∉ names')
    (directory : d.isDirectory (start ++ names'.filter fun name => !stays name) = true) :
    d.follow names' start = some (start ++ names'.filter fun name => !stays name) := by
  induction names' generalizing start with
  | nil => rw [List.filter_nil, List.append_nil, follow]
  | cons name rest ih =>
    rw [List.mem_cons, not_or] at level
    refine follow_cons_eq_some.mpr ⟨isDirectory_above (List.prefix_append start _) directory, ?_⟩
    rw [onward, if_neg fun up : name = ".." => level.1 up.symm]
    by_cases stay : stays name = true
    · rw [List.filter_cons_of_neg (by simpa using stay)] at directory ⊢
      rw [if_pos stay]
      exact ih level.2 directory
    · rw [List.filter_cons_of_pos (by simpa using stay)] at directory ⊢
      rw [List.append_cons] at directory
      rw [if_neg stay, ih level.2 directory, List.append_assoc, List.singleton_append]

end Ways

end LatencyRank.Disk
