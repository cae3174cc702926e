/-!
Finite maps with texts for keys: a list of pairs without a repeated key. A new key goes to the end,
a known one keeps its place.
-/

namespace LatencyRank

structure Keyed (α : Type) where
  entries : List (String × α)
  distinct : (entries.map Prod.fst).Nodup

namespace Keyed

variable {α : Type}

def empty : Keyed α := ⟨[], List.nodup_nil⟩

def find? (m : Keyed α) (key : String) : Option α := m.entries.lookup key

def size (m : Keyed α) : Nat := m.entries.length

def put (key : String) (value : α) : List (String × α) → List (String × α)
  | [] => [(key, value)]
  | entry :: rest => if entry.1 = key then (key, value) :: rest else entry :: put key value rest

theorem keys_put (key : String) (value : α) (entries : List (String × α)) :
    (put key value entries).map Prod.fst =
      if key ∈ entries.map Prod.fst then entries.map Prod.fst else entries.map Prod.fst ++ [key] := by
  induction entries with
  | nil => simp [put]
  | cons entry rest ih =>
    by_cases same : entry.1 = key
    · simp [put, same]
    · have other : ¬key = entry.1 := fun h => same h.symm
      rw [put, if_neg same, List.map_cons, ih]
      by_cases known : key ∈ rest.map Prod.fst
      · have stays : key ∈ (entry :: rest).map Prod.fst := List.mem_cons_of_mem _ known
        rw [if_pos known, if_pos stays, List.map_cons]
      · have unknown : key ∉ (entry :: rest).map Prod.fst := by
          rw [List.map_cons, List.mem_cons]
          exact fun h => h.elim other known
        rw [if_neg known, if_neg unknown, List.map_cons, List.cons_append]

theorem nodup_put (key : String) (value : α) {entries : List (String × α)}
    (distinct : (entries.map Prod.fst).Nodup) : ((put key value entries).map Prod.fst).Nodup := by
  rw [keys_put]
  split
  · exact distinct
  · rename_i unknown
    refine List.nodup_append.mpr ⟨distinct, by simp, ?_⟩
    intro a known b single same
    rw [List.mem_singleton] at single
    exact unknown (single ▸ same ▸ known)

def insert (m : Keyed α) (key : String) (value : α) : Keyed α :=
  ⟨put key value m.entries, nodup_put key value m.distinct⟩

def filter (m : Keyed α) (keep : String × α → Bool) : Keyed α :=
  ⟨m.entries.filter keep, m.distinct.sublist (List.filter_sublist.map _)⟩

def erase (m : Keyed α) (key : String) : Keyed α := m.filter fun entry => entry.1 ≠ key

theorem lookup_entry (key : String) (entry : String × α) (rest : List (String × α)) :
    (entry :: rest).lookup key = if key = entry.1 then some entry.2 else rest.lookup key := by
  obtain ⟨name, value⟩ := entry
  by_cases hit : key = name
  · rw [List.lookup_cons, if_pos hit, beq_iff_eq.mpr hit]
  · rw [List.lookup_cons, if_neg hit, beq_false_of_ne hit]

theorem lookup_put (key other : String) (value : α) (entries : List (String × α)) :
    (put key value entries).lookup other =
      if other = key then some value else entries.lookup other := by
  induction entries with
  | nil => simp only [put, lookup_entry]
  | cons entry rest ih =>
    by_cases same : entry.1 = key
    · simp only [put, same, if_true, lookup_entry]
      split <;> rfl
    · simp only [put, same, if_false, lookup_entry, ih]
      by_cases hit : other = entry.1
      · have different : ¬other = key := fun h => same (hit ▸ h)
        rw [if_pos hit, if_neg different, if_pos hit]
      · rw [if_neg hit, if_neg hit]

theorem find?_insert (m : Keyed α) (key other : String) (value : α) :
    (m.insert key value).find? other = if other = key then some value else m.find? other :=
  lookup_put key other value m.entries

theorem find?_empty (key : String) : (empty : Keyed α).find? key = none := rfl

end Keyed

end LatencyRank
