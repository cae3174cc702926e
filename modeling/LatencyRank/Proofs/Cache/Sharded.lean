import Mathlib
import LatencyRank.Cache.Sharded
import LatencyRank.Proofs.Keyed

/-!
The sharded cache as one map: what is found under an address is what was inserted there last, unless
it was taken away since. The split into shards is not seen from outside.
-/

namespace LatencyRank

namespace ShardedCache

section Shards

theorem shardCountFor_pos (wish : Nat) : 0 < shardCountFor wish := by
  unfold shardCountFor
  split
  · decide
  · exact Nat.pos_of_isPowerOfTwo (Nat.isPowerOfTwo_nextPowerOfTwo _)

theorem shardCount_make (wish : Nat) : (make wish).shardCount = shardCountFor wish :=
  List.length_replicate

theorem shardIndex_lt {c : ShardedCache} (some' : 0 < c.shardCount) (ip : String) :
    c.shardIndex ip < c.shardCount := by
  have below : c.shardIndex ip ≤ c.shardCount - 1 := Nat.and_le_right
  omega

theorem shardCount_insert (c : ShardedCache) (ip : String) (entry : CacheEntry) :
    (c.insert ip entry).shardCount = c.shardCount :=
  List.length_modify ..

end Shards

section Lookup

theorem find?_make (wish : Nat) (ip : String) : (make wish).find? ip = none := by
  unfold find? make
  rw [List.getElem?_replicate]
  split <;> rfl

theorem find?_insert {c : ShardedCache} (some' : 0 < c.shardCount) (ip other : String)
    (entry : CacheEntry) :
    (c.insert ip entry).find? other = if other = ip then some entry else c.find? other := by
  have index : (c.insert ip entry).shardIndex other = c.shardIndex other := by
    unfold shardIndex
    rw [shardCount_insert]
  have shards : (c.insert ip entry).shards =
      c.shards.modify (c.shardIndex ip) fun shard => shard.insert ip entry := rfl
  unfold find?
  rw [index, shards, List.getElem?_modify]
  have inside : c.shardIndex other < c.shards.length := shardIndex_lt some' other
  rw [List.getElem?_eq_getElem inside]
  by_cases together : c.shardIndex ip = c.shardIndex other
  · simp only [together, ↓reduceIte, Option.map_eq_map, Option.map_some, Option.bind_some,
      Keyed.find?_insert]
  · have different : other ≠ ip := fun same => together (congrArg c.shardIndex same).symm
    simp [together, different]

theorem find?_clear (c : ShardedCache) (ip : String) : c.clear.find? ip = none := by
  have shards : c.clear.shards = c.shards.map fun _ => .empty := rfl
  unfold find?
  rw [shards, List.getElem?_map]
  cases c.shards[c.clear.shardIndex ip]? <;> rfl

theorem shardCount_cleanup (c : ShardedCache) (now : Int) :
    (c.cleanup now).1.shardCount = c.shardCount :=
  List.length_map ..

theorem find?_of_cleanup {c : ShardedCache} {now : Int} {ip : String} {entry : CacheEntry}
    (found : (c.cleanup now).1.find? ip = some entry) : c.find? ip = some entry := by
  have index : (c.cleanup now).1.shardIndex ip = c.shardIndex ip := by
    unfold shardIndex
    rw [shardCount_cleanup]
  have shards : (c.cleanup now).1.shards = c.shards.map (keepLive now) := rfl
  unfold find? at found ⊢
  rw [index, shards, List.getElem?_map] at found
  cases known : c.shards[c.shardIndex ip]? with
  | none => simp [known] at found
  | some shard =>
      rw [known] at found
      exact Keyed.find?_of_filter found

end Lookup

end ShardedCache

end LatencyRank
