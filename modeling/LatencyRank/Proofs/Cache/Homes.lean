import Mathlib
import LatencyRank.Proofs.Cache.Sharded
import LatencyRank.Proofs.Schedule.Places

/-!
Where the entries of a sharded cache live. An address is in the shard that its hash selects and in no
other, and every operation keeps it so. Hence the shards together are one plain map: they hold the
same entries, each once, in the same number and the same sorted list.
-/

namespace LatencyRank

namespace ShardedCache

section Homes

/-- There are shards, and every address lives in the one that its hash selects. -/
structure Homed (c : ShardedCache) : Prop where
  some' : 0 < c.shardCount
  home : ∀ index shard, c.shards[index]? = some shard →
    ∀ entry ∈ shard.entries, c.shardIndex entry.1 = index

def entries (c : ShardedCache) : List (String × CacheEntry) := c.shards.flatMap Keyed.entries

variable {c c' : ShardedCache}

theorem shardIndex_of_count (same : c'.shardCount = c.shardCount) (ip : String) :
    c'.shardIndex ip = c.shardIndex ip := by
  rw [shardIndex, shardIndex, same]

theorem mem_entries (homed : Homed c) {entry : String × CacheEntry} :
    entry ∈ c.entries ↔ c.find? entry.1 = some entry.2 := by
  rw [entries, List.mem_flatMap, find?, Option.bind_eq_some_iff]
  constructor
  · rintro ⟨shard, member, inside⟩
    obtain ⟨index, known⟩ := List.mem_iff_getElem?.mp member
    refine ⟨shard, ?_, Keyed.find?_eq_some_iff.mpr inside⟩
    rw [homed.home index shard known entry inside]
    exact known
  · rintro ⟨shard, known, found⟩
    exact ⟨shard, List.mem_of_getElem? known, Keyed.find?_eq_some_iff.mp found⟩

theorem nodup_keys (homed : Homed c) : (c.entries.map Prod.fst).Nodup := by
  rw [entries, List.map_flatMap, List.nodup_flatMap]
  refine ⟨fun shard _ => shard.distinct, ?_⟩
  rw [List.pairwise_iff_getElem]
  intro i j below below' less ip first second
  obtain ⟨entry, inside, rfl⟩ := List.mem_map.mp first
  obtain ⟨other, inside', same⟩ := List.mem_map.mp second
  have here := homed.home i _ (List.getElem?_eq_getElem below) entry inside
  have there := homed.home j _ (List.getElem?_eq_getElem below') other inside'
  rw [same, here] at there
  exact absurd there (Nat.ne_of_lt less)

theorem size_eq (c : ShardedCache) : c.size = c.entries.length := by
  rw [size, entries]
  induction c.shards with
  | nil => rfl
  | cons shard rest ih => rw [totalOf, ih, List.flatMap_cons, List.length_append, Keyed.size]

/-- Shards that take in nothing but their own addresses keep every address at home. -/
theorem Homed.of_shards (homed : Homed c) (count : c'.shardCount = c.shardCount)
    (shards : ∀ index shard', c'.shards[index]? = some shard' →
      ∃ shard, c.shards[index]? = some shard ∧
        ∀ entry ∈ shard'.entries, entry ∈ shard.entries ∨ c.shardIndex entry.1 = index) :
    Homed c' where
  some' := count ▸ homed.some'
  home := by
    intro index shard' known entry inside
    obtain ⟨shard, known', old⟩ := shards index shard' known
    rw [shardIndex_of_count count]
    rcases old entry inside with stays | comes
    · exact homed.home index shard known' entry stays
    · exact comes

theorem homed_make (wish : Nat) : Homed (make wish) where
  some' := (shardCount_make wish).symm ▸ shardCountFor_pos wish
  home := by
    intro index shard known entry inside
    rw [make, List.getElem?_replicate] at known
    split at known
    · cases known
      cases inside
    · cases known

theorem homed_onShard (homed : Homed c) (ip : String) (change : Keyed CacheEntry → Keyed CacheEntry)
    (own : ∀ shard, ∀ entry ∈ (change shard).entries, entry ∈ shard.entries ∨ entry.1 = ip) :
    Homed (c.onShard ip change) := by
  refine homed.of_shards (List.length_modify ..) ?_
  intro index shard' known
  have shards : (c.onShard ip change).shards = c.shards.modify (c.shardIndex ip) change := rfl
  rw [shards, List.getElem?_modify] at known
  obtain ⟨shard, known', rfl⟩ := Option.map_eq_some_iff.mp known
  refine ⟨shard, known', ?_⟩
  by_cases here : c.shardIndex ip = index
  · simp only [here, ↓reduceIte]
    intro entry inside
    exact (own shard entry inside).imp_right fun same => (congrArg c.shardIndex same).trans here
  · simp only [here, ↓reduceIte]
    exact fun entry => Or.inl

end Homes

section Changes

variable {c : ShardedCache}

theorem homed_insert (homed : Homed c) (ip : String) (entry : CacheEntry) :
    Homed (c.insert ip entry) := by
  refine homed_onShard homed ip _ fun shard other inside => ?_
  have found := Keyed.find?_eq_some_iff.mpr (show (other.1, other.2) ∈ _ from inside)
  rw [Keyed.find?_insert] at found
  split at found
  · rename_i same
    exact Or.inr same
  · exact Or.inl (Keyed.find?_eq_some_iff.mp found)

theorem homed_erase (homed : Homed c) (ip : String) : Homed (c.erase ip) :=
  homed_onShard homed ip _ fun _ _ inside => Or.inl (List.mem_of_mem_filter inside)

theorem homed_clear (homed : Homed c) : Homed c.clear := by
  refine homed.of_shards (List.length_map ..) fun index shard' known => ?_
  have shards : c.clear.shards = c.shards.map fun _ => .empty := rfl
  rw [shards, List.getElem?_map] at known
  obtain ⟨shard, known', rfl⟩ := Option.map_eq_some_iff.mp known
  exact ⟨shard, known', fun entry inside => absurd inside List.not_mem_nil⟩

theorem find?_erase (homed : Homed c) (ip other : String) :
    (c.erase ip).find? other = if other = ip then none else c.find? other := by
  have count : (c.erase ip).shardCount = c.shardCount := List.length_modify ..
  have shards : (c.erase ip).shards =
      c.shards.modify (c.shardIndex ip) fun shard => shard.erase ip := rfl
  rw [find?, find?, shardIndex_of_count count, shards, List.getElem?_modify]
  have inside : c.shardIndex other < c.shards.length := shardIndex_lt homed.some' other
  rw [List.getElem?_eq_getElem inside]
  by_cases together : c.shardIndex ip = c.shardIndex other
  · simp only [together, ↓reduceIte, Option.map_eq_map, Option.map_some, Option.bind_some,
      Keyed.find?_erase]
  · have different : other ≠ ip := fun same => together (congrArg c.shardIndex same).symm
    simp [together, different]

def isLive (now : Int) (entry : String × CacheEntry) : Bool := !entry.2.isExpired now

theorem keepLive_keepLive (now : Int) (shard : Keyed CacheEntry) :
    keepLive now (keepLive now shard) = keepLive now shard := by
  simp [keepLive, Keyed.filter]

/-- The cache with some of its shards cleaned, as both cleanups leave it. -/
structure Cleaned (c : ShardedCache) (places : List Nat) (now : Int) (c' : ShardedCache) : Prop where
  shards : ∀ index : Nat, c'.shards[index]? =
    if index ∈ places then c.shards[index]?.map (keepLive now) else c.shards[index]?
  count : c'.shardCount = c.shardCount

theorem cleaned_cleanup (c : ShardedCache) (now : Int) :
    Cleaned c (List.range c.shardCount) now (c.cleanup now).1 where
  shards := by
    intro index
    have shards : (c.cleanup now).1.shards = c.shards.map (keepLive now) := rfl
    rw [shards, List.getElem?_map]
    split
    · rfl
    · rename_i outside
      rw [List.mem_range, Nat.not_lt] at outside
      rw [List.getElem?_eq_none outside]
      rfl
  count := shardCount_cleanup c now

theorem cleaned_cleanupPartial (c : ShardedCache) (wish : Nat) (now : Int) :
    Cleaned c (c.visited (c.budgetFor wish)) now (c.cleanupPartial wish now).1 where
  shards := getElem?_modifyAll (keepLive now) (keepLive_keepLive now) _ _
  count := length_modifyAll (keepLive now) _ _

theorem homed_cleaned {places : List Nat} {now : Int} {c' : ShardedCache} (homed : Homed c)
    (cleaned : Cleaned c places now c') : Homed c' := by
  refine homed.of_shards cleaned.count fun index shard' known => ?_
  rw [cleaned.shards] at known
  split at known
  · obtain ⟨shard, known', rfl⟩ := Option.map_eq_some_iff.mp known
    exact ⟨shard, known', fun entry inside => Or.inl (List.mem_of_mem_filter inside)⟩
  · exact ⟨shard', known, fun entry => Or.inl⟩

/-- An entry goes if its shard is cleaned and it is expired. -/
theorem find?_cleaned {places : List Nat} {now : Int} {c' : ShardedCache}
    (cleaned : Cleaned c places now c') (ip : String) :
    c'.find? ip = (c.find? ip).filter fun entry =>
      !decide (c.shardIndex ip ∈ places) || isLive now (ip, entry) := by
  rw [find?, find?, shardIndex_of_count cleaned.count, cleaned.shards]
  by_cases visited : c.shardIndex ip ∈ places
  · rw [if_pos visited]
    cases c.shards[c.shardIndex ip]? with
    | none => rfl
    | some shard =>
        rw [Option.map_some, Option.bind_some, Option.bind_some, keepLive, Keyed.find?_filter]
        simp [visited, isLive]
  · rw [if_neg visited, decide_eq_false visited]
    cases c.shards[c.shardIndex ip]?.bind fun shard => shard.find? ip <;> rfl

end Changes

section Views

/-- A plain map in which the same is found. -/
structure Represents (c : ShardedCache) (m : Keyed CacheEntry) : Prop where
  homed : Homed c
  finds : ∀ ip, c.find? ip = m.find? ip

variable {c c' : ShardedCache} {m m' : Keyed CacheEntry}

theorem Represents.entries_perm (represents : Represents c m) : c.entries.Perm m.entries := by
  have distinct := List.Nodup.of_map Prod.fst (nodup_keys represents.homed)
  refine (List.perm_ext_iff_of_nodup distinct (.of_map _ m.distinct)).mpr fun entry => ?_
  rw [mem_entries represents.homed, represents.finds]
  exact Keyed.find?_eq_some_iff

theorem Represents.size (represents : Represents c m) : c.size = m.size := by
  rw [size_eq]
  exact represents.entries_perm.length_eq

def sorted (m : Keyed CacheEntry) : List (String × CacheEntry) :=
  m.entries.mergeSort fun x y => decide (x.1 ≤ y.1)

theorem sorted_pairwise (entries : List (String × CacheEntry)) :
    (entries.mergeSort fun x y => decide (x.1 ≤ y.1)).Pairwise fun x y => x.1 ≤ y.1 := by
  refine (List.pairwise_mergeSort ?_ ?_ entries).imp of_decide_eq_true
  · intro x y z early late
    exact decide_eq_true (le_trans (of_decide_eq_true early) (of_decide_eq_true late))
  · intro x y
    simpa using le_total x.1 y.1

/-- The list of all entries shows neither the shards nor the order in which they came. -/
theorem Represents.toList (represents : Represents c m) : c.toList = sorted m := by
  refine List.Perm.eq_of_pairwise ?_ (sorted_pairwise c.entries) (sorted_pairwise m.entries) ?_
  · intro x y inside inside' le ge
    have same : x.1 = y.1 := le_antisymm le ge
    have found := (mem_entries represents.homed).mp ((List.mergeSort_perm _ _).mem_iff.mp inside)
    have found' := Keyed.find?_eq_some_iff.mpr ((List.mergeSort_perm _ _).mem_iff.mp inside')
    rw [represents.finds, same] at found
    exact Prod.ext same (Option.some.inj (found.symm.trans found'))
  · exact (List.mergeSort_perm _ _).trans
      (represents.entries_perm.trans (List.mergeSort_perm _ _).symm)

theorem removed_eq (represents : Represents c m) (keep : String × CacheEntry → Bool)
    (represents' : Represents c' (m.filter keep)) :
    c.size - c'.size = m.entries.countP fun entry => !keep entry := by
  have parts := List.length_eq_countP_add_countP keep (l := m.entries)
  have left : (m.filter keep).size = m.entries.countP keep := List.countP_eq_length_filter.symm
  have all : m.size = m.entries.length := rfl
  rw [represents.size, represents'.size, left, all, parts, Nat.add_sub_cancel_left]
  exact List.countP_congr fun entry _ => by simp

end Views

end ShardedCache

end LatencyRank
