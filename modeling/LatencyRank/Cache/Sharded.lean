import LatencyRank.FixedWidth
import LatencyRank.Keyed
import LatencyRank.Measurement.Basic
import LatencyRank.Total

/-!
The cache of measurements. From `staleAt` on an entry is served only while a refresh is under way; from
`expiresAt` on it is not served at all. The entries are split into shards by a hash of the address. The
number of shards is a power of two, so the shard is the low bits of the hash. A partial cleanup visits
some shards from a cursor on; the cursor counts in 64 bits and wraps, which the number of shards divides.
-/

namespace LatencyRank

structure CacheEntry where
  latency : Int
  loss : Binary64
  method : Method
  staleAt : Int
  expiresAt : Int
deriving DecidableEq, Repr

namespace CacheEntry

/-- An entry is never stale later than it expires. -/
def make (latency : Int) (loss : Binary64) (method : Method) (staleAt expiresAt : Int) : CacheEntry :=
  { latency, loss, method, staleAt := min staleAt expiresAt, expiresAt }

def isExpired (e : CacheEntry) (now : Int) : Bool := decide (e.expiresAt ≤ now)

def isStale (e : CacheEntry) (now : Int) : Bool := decide (e.staleAt ≤ now)

/-- The latency as it is served: the penalty of the method goes into it, since the served method
has none. An unreachable address keeps the latency that says so. -/
def servedLatency (e : CacheEntry) : Int :=
  if deadLatency ≤ e.latency then e.latency else Signed.add e.latency e.method.penalty

def serve (e : CacheEntry) (ip : String) (now : Int) : Option Measurement :=
  if e.isExpired now then none
  else
    let method := if e.isStale now then Method.stale else Method.cached
    some { ip, latency := e.servedLatency, loss := e.loss, method }

def toJson (e : CacheEntry) : Json :=
  .object [("rttMs", .integer e.latency), ("lossPercent", .real e.loss),
    ("probeMethod", e.method.toJson), ("staleAt", .integer e.staleAt),
    ("expiresAt", .integer e.expiresAt)]

end CacheEntry

structure ShardedCache where
  shards : List (Keyed CacheEntry)
  cursor : Nat := 0

namespace ShardedCache

def maxShards : Nat := 1024

def fallbackShards : Nat := 16

/-- The number of shards made for a wish: the next power of two, up to the maximum. -/
def shardCountFor (wish : Nat) : Nat :=
  if wish = 0 then fallbackShards else (min wish maxShards).nextPowerOfTwo

def make (wish : Nat) : ShardedCache := ⟨List.replicate (shardCountFor wish) .empty, 0⟩

/-- One byte of the 32-bit FNV-1a hash. -/
def hashStep (hash : UInt32) (byte : UInt8) : UInt32 := (hash ^^^ byte.toUInt32) * 16777619

def hash (ip : String) : UInt32 := ip.toUTF8.toList.foldl hashStep 2166136261

def shardCount (c : ShardedCache) : Nat := c.shards.length

def shardIndex (c : ShardedCache) (ip : String) : Nat := (hash ip).toNat &&& (c.shardCount - 1)

def find? (c : ShardedCache) (ip : String) : Option CacheEntry :=
  (c.shards[c.shardIndex ip]?).bind fun shard => shard.find? ip

def onShard (c : ShardedCache) (ip : String) (change : Keyed CacheEntry → Keyed CacheEntry) :
    ShardedCache :=
  { c with shards := c.shards.modify (c.shardIndex ip) change }

def insert (c : ShardedCache) (ip : String) (entry : CacheEntry) : ShardedCache :=
  c.onShard ip fun shard => shard.insert ip entry

def erase (c : ShardedCache) (ip : String) : ShardedCache := c.onShard ip fun shard => shard.erase ip

def size (c : ShardedCache) : Nat := totalOf Keyed.size c.shards

def isEmpty (c : ShardedCache) : Bool := c.size == 0

def clear (c : ShardedCache) : ShardedCache := { c with shards := c.shards.map fun _ => .empty }

def keepLive (now : Int) (shard : Keyed CacheEntry) : Keyed CacheEntry :=
  shard.filter fun entry => !entry.2.isExpired now

def cleanup (c : ShardedCache) (now : Int) : ShardedCache × Nat :=
  let left := { c with shards := c.shards.map (keepLive now) }
  (left, c.size - left.size)

def cursorLimit : Nat := Unsigned.greatest64 + 1

def visited (c : ShardedCache) (budget : Nat) : List Nat :=
  (List.range budget).map fun offset => (c.cursor + offset) % cursorLimit % c.shardCount

/-- The number of shards that a partial cleanup visits: one at least and all at most. -/
def budgetFor (c : ShardedCache) (wish : Nat) : Nat := min (max wish 1) c.shardCount

/-- Cleans some shards from the cursor on and moves it behind them. -/
def cleanupPartial (c : ShardedCache) (wish : Nat) (now : Int) : ShardedCache × Nat :=
  let budget := c.budgetFor wish
  -- The cursor wraps before it becomes a shard, and a budget never visits one shard twice.
  let clean shards index := List.modify shards index (keepLive now)
  let left := { shards := (c.visited budget).foldl clean c.shards,
                cursor := (c.cursor + budget) % cursorLimit }
  (left, c.size - left.size)

def toList (c : ShardedCache) : List (String × CacheEntry) :=
  (c.shards.flatMap Keyed.entries).mergeSort fun x y => decide (x.1 ≤ y.1)

end ShardedCache

end LatencyRank
