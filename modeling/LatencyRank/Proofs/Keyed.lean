import Mathlib
import LatencyRank.Keyed

/-!
Finite maps by what is found in them. An entry is found under its key, since no key is repeated; two
maps in which the same is found have the same entries.
-/

namespace LatencyRank.Keyed

variable {α : Type}

section Lookup

theorem lookup_of_mem {key : String} {value : α} {entries : List (String × α)}
    (distinct : (entries.map Prod.fst).Nodup) (member : (key, value) ∈ entries) :
    entries.lookup key = some value := by
  induction entries with
  | nil => exact absurd member List.not_mem_nil
  | cons entry rest ih =>
      obtain ⟨first, distinct'⟩ := List.nodup_cons.mp distinct
      rw [lookup_entry]
      rcases List.mem_cons.mp member with rfl | later
      · rw [if_pos rfl]
      · have different : key ≠ entry.1 := fun same =>
          first (same ▸ List.mem_map_of_mem later)
        rw [if_neg different]
        exact ih distinct' later

theorem mem_of_lookup {key : String} {value : α} {entries : List (String × α)}
    (found : entries.lookup key = some value) : (key, value) ∈ entries := by
  obtain ⟨front, back, shape, -⟩ := List.lookup_eq_some_iff.mp found
  rw [shape]
  exact List.mem_append_right _ List.mem_cons_self

theorem lookup_filter (keep : String → Bool) {key : String} (kept : keep key = true)
    (entries : List (String × α)) :
    (entries.filter fun entry => keep entry.1).lookup key = entries.lookup key := by
  induction entries with
  | nil => rfl
  | cons entry rest ih =>
    by_cases own : keep entry.1 = true
    · rw [List.filter_cons, if_pos own, lookup_entry, lookup_entry, ih]
    · have different : key ≠ entry.1 := fun same => own (same ▸ kept)
      rw [List.filter_cons, if_neg own, ih, lookup_entry, if_neg different]

theorem lookup_filter_ne (key other : String) (entries : List (String × α)) :
    (entries.filter fun entry => entry.1 ≠ key).lookup other =
      if other = key then none else entries.lookup other := by
  induction entries with
  | nil => simp
  | cons entry rest ih =>
    by_cases same : entry.1 = key
    · rw [List.filter_cons_of_neg (by simpa using same), ih, lookup_entry, same]
      split <;> rfl
    · rw [List.filter_cons_of_pos (by simpa using same), lookup_entry, lookup_entry, ih]
      by_cases asked : other = key
      · rw [if_pos asked, if_pos asked, if_neg fun hit => same (hit.symm.trans asked)]
      · rw [if_neg asked, if_neg asked]

end Lookup

section Maps

variable {m n : Keyed α}

theorem find?_eq_some_iff {key : String} {value : α} :
    m.find? key = some value ↔ (key, value) ∈ m.entries := by
  constructor
  · exact mem_of_lookup
  · exact lookup_of_mem m.distinct

theorem find?_of_filter {keep : String × α → Bool} {key : String} {value : α}
    (found : (m.filter keep).find? key = some value) : m.find? key = some value :=
  find?_eq_some_iff.mpr (List.mem_of_mem_filter (find?_eq_some_iff.mp found))

theorem find?_filter (m : Keyed α) (keep : String × α → Bool) (key : String) :
    (m.filter keep).find? key = (m.find? key).filter fun value => keep (key, value) := by
  apply Option.ext
  intro value
  rw [find?_eq_some_iff, Option.filter_eq_some_iff, find?_eq_some_iff]
  exact List.mem_filter

theorem find?_erase (m : Keyed α) (key other : String) :
    (m.erase key).find? other = if other = key then none else m.find? other :=
  lookup_filter_ne key other m.entries

theorem entries_perm (same : ∀ key, m.find? key = n.find? key) : m.entries.Perm n.entries := by
  refine (List.perm_ext_iff_of_nodup (.of_map _ m.distinct) (.of_map _ n.distinct)).mpr ?_
  rintro ⟨key, value⟩
  rw [← find?_eq_some_iff, ← find?_eq_some_iff, same]

end Maps

end LatencyRank.Keyed
