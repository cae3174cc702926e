import Mathlib
import LatencyRank.Proofs.Cache.OneMap

/-!
Partial cleanups go round the shards. Each goes on where the one before stopped, also where the cursor
wraps, since the number of shards divides its range. So calls whose budgets add up to the number of
shards visit all of them, whatever is asked of the cache in between.
-/

namespace LatencyRank

namespace CacheRequest

def isRead : CacheRequest → Bool
  | get _ | size | isEmpty | entries => true
  | _ => false

def SweepsAt (now : Int) (request : CacheRequest) : Prop :=
  request.isRead = true ∨ ∃ wish, request = .cleanupPartial wish now

end CacheRequest

namespace ShardedCache

def budgetOf (c : ShardedCache) : CacheRequest → Nat
  | .cleanupPartial wish _ => c.budgetFor wish
  | _ => 0

/-- The shards that the partial cleanups among some requests visit, in order. -/
def visits (c : ShardedCache) : List CacheRequest → List Nat
  | [] => []
  | request :: rest => c.visited (c.budgetOf request) ++ (c.respond request).1.visits rest

def removedBy (c : ShardedCache) : CacheRequest → Nat
  | .cleanupPartial wish now => (c.cleanupPartial wish now).2
  | _ => 0

def removedByAll (c : ShardedCache) : List CacheRequest → Nat
  | [] => 0
  | request :: rest => c.removedBy request + (c.respond request).1.removedByAll rest

section Ring

variable {c : ShardedCache}

/-- The range of the cursor is a multiple of every number of shards. -/
theorem shardCountFor_dvd (wish : Nat) : shardCountFor wish ∣ cursorLimit := by
  have powers : ∀ n < maxShards + 1, n.nextPowerOfTwo ∣ cursorLimit := by decide +kernel
  unfold shardCountFor
  split
  · exact ⟨2 ^ 60, by decide⟩
  · exact powers _ (Nat.lt_succ_of_le (Nat.min_le_right _ _))

theorem shardCount_respond (c : ShardedCache) (request : CacheRequest) :
    (c.respond request).1.shardCount = c.shardCount := by
  cases request with
  | set ip entry => exact shardCount_insert c ip entry
  | delete ip => exact List.length_modify ..
  | cleanup now => exact shardCount_cleanup c now
  | cleanupPartial wish now => exact (cleaned_cleanupPartial c wish now).count
  | clear => exact List.length_map ..
  | _ => rfl

theorem shardCount_respondAll (c : ShardedCache) (requests : List CacheRequest) :
    (c.respondAll requests).1.shardCount = c.shardCount := by
  induction requests generalizing c with
  | nil => rfl
  | cons request rest ih => exact (ih _).trans (shardCount_respond c request)

theorem homed_respond (homed : Homed c) (request : CacheRequest) : Homed (c.respond request).1 := by
  cases request with
  | set ip entry => exact homed_insert homed ip entry
  | delete ip => exact homed_erase homed ip
  | cleanup now => exact homed_cleaned homed (cleaned_cleanup c now)
  | cleanupPartial wish now => exact homed_cleaned homed (cleaned_cleanupPartial c wish now)
  | clear => exact homed_clear homed
  | _ => exact homed

theorem budgetOf_respond (c : ShardedCache) (request : CacheRequest) :
    (c.respond request).1.budgetOf = c.budgetOf := by
  funext other
  cases other with
  | cleanupPartial wish now => simp only [budgetOf, budgetFor, shardCount_respond]
  | _ => rfl

/-- Where the cursor stands among the shards after a request: as far on as shards were visited. -/
theorem cursor_respond (divides : c.shardCount ∣ cursorLimit) (request : CacheRequest) :
    (c.respond request).1.cursor % c.shardCount = (c.cursor + c.budgetOf request) % c.shardCount := by
  cases request with
  | cleanupPartial wish now => exact Nat.mod_mod_of_dvd _ divides
  | _ => rfl

/-- The shards are visited one after the other, and the first again after the last. -/
theorem visited_eq (divides : c.shardCount ∣ cursorLimit) (budget : Nat) :
    c.visited budget = (List.range budget).map fun k => (c.cursor + k) % c.shardCount :=
  List.map_congr_left fun _ _ => Nat.mod_mod_of_dvd _ divides

/-- From call to call no shard is left out and none comes twice. -/
theorem visits_eq (divides : c.shardCount ∣ cursorLimit) (requests : List CacheRequest) :
    c.visits requests =
      (List.range (totalOf c.budgetOf requests)).map fun k => (c.cursor + k) % c.shardCount := by
  induction requests generalizing c with
  | nil => rfl
  | cons request rest ih =>
    have goesOn (k : Nat) : ((c.respond request).1.cursor + k) % c.shardCount =
        (c.cursor + (c.budgetOf request + k)) % c.shardCount := by
      rw [Nat.add_mod, cursor_respond divides, ← Nat.add_mod, Nat.add_assoc]
    rw [visits, visited_eq divides, ih (by rwa [shardCount_respond]), budgetOf_respond,
      shardCount_respond, totalOf, List.range_add, List.map_append, List.map_map]
    exact congrArg _ (List.map_congr_left fun k _ => goesOn k)

/-- Counting on from anywhere, as many places as there are shards name each of them. -/
theorem exists_reaches {count index : Nat} (below : index < count) (cursor : Nat) :
    ∃ k < count, (cursor + k) % count = index := by
  refine ⟨(index + (count - cursor % count)) % count, Nat.mod_lt _ (by omega), ?_⟩
  have parts := Nat.mod_add_div cursor count
  have inside := Nat.mod_lt cursor (Nat.zero_lt_of_lt below)
  have round : cursor + (index + (count - cursor % count)) = index + count * (cursor / count + 1) := by
    rw [Nat.mul_succ]
    omega
  rw [Nat.add_mod_mod, round, Nat.add_mul_mod_self_left, Nat.mod_eq_of_lt below]

theorem mem_visits (divides : c.shardCount ∣ cursorLimit) {requests : List CacheRequest}
    (enough : c.shardCount ≤ totalOf c.budgetOf requests) {index : Nat} (below : index < c.shardCount) :
    index ∈ c.visits requests := by
  obtain ⟨k, early, reaches⟩ := exists_reaches below c.cursor
  rw [visits_eq divides, List.mem_map]
  exact ⟨k, List.mem_range.mpr (Nat.lt_of_lt_of_le early enough), reaches⟩

end Ring

section Removal

variable {c : ShardedCache} {ip : String} {entry : CacheEntry} {requests : List CacheRequest}

theorem find?_cleanupPartial (c : ShardedCache) (wish : Nat) (now : Int) (ip : String) :
    (c.cleanupPartial wish now).1.find? ip = (c.find? ip).filter fun entry =>
      !(decide (c.shardIndex ip ∈ c.visited (c.budgetFor wish)) && entry.isExpired now) := by
  rw [find?_cleaned (cleaned_cleanupPartial c wish now)]
  congr 1
  funext entry
  rw [Bool.not_and, isLive]

theorem find?_of_respond (homed : Homed c) {request : CacheRequest}
    (unset : ∀ entry, request ≠ .set ip entry) (found : (c.respond request).1.find? ip = some entry) :
    c.find? ip = some entry := by
  cases request with
  | set other entry' =>
    have different : ip ≠ other := fun same => unset entry' (same ▸ rfl)
    rw [respond, find?_insert homed.some', if_neg different] at found
    exact found
  | delete other =>
    rw [respond, find?_erase homed] at found
    split at found
    · cases found
    · exact found
  | cleanup now => exact find?_of_cleanup found
  | cleanupPartial wish now =>
    rw [respond, find?_cleanupPartial] at found
    exact (Option.filter_eq_some_iff.mp found).1
  | clear =>
    rw [respond, find?_clear] at found
    cases found
  | _ => exact found

theorem find?_of_respondAll (homed : Homed c) (unset : ∀ entry, .set ip entry ∉ requests)
    (found : (c.respondAll requests).1.find? ip = some entry) : c.find? ip = some entry := by
  induction requests generalizing c with
  | nil => exact found
  | cons request rest ih =>
    have later := ih (homed_respond homed request)
      (fun entry member => unset entry (List.mem_cons_of_mem _ member)) found
    exact find?_of_respond homed (fun entry same => unset entry (same ▸ List.mem_cons_self)) later

/-- An entry that is expired at every call is gone once its shard was visited. -/
theorem not_found_of_visited (homed : Homed c) (unset : ∀ entry, .set ip entry ∉ requests)
    (expired : ∀ wish now, .cleanupPartial wish now ∈ requests → entry.isExpired now = true)
    (visited : c.shardIndex ip ∈ c.visits requests) :
    (c.respondAll requests).1.find? ip ≠ some entry := by
  induction requests generalizing c with
  | nil => exact absurd visited List.not_mem_nil
  | cons request rest ih =>
    have unset' : ∀ entry, .set ip entry ∉ rest := fun entry member =>
      unset entry (List.mem_cons_of_mem _ member)
    rcases List.mem_append.mp visited with here | later
    · intro found
      have before := find?_of_respondAll (homed_respond homed request) unset' found
      cases request with
      | cleanupPartial wish now =>
        have gone := expired wish now List.mem_cons_self
        have here' : c.shardIndex ip ∈ c.visited (c.budgetFor wish) := here
        rw [respond, find?_cleanupPartial] at before
        have stays := (Option.filter_eq_some_iff.mp before).2
        rw [gone, decide_eq_true here'] at stays
        cases stays
      | _ => cases here
    · have index : (c.respond request).1.shardIndex ip = c.shardIndex ip :=
        shardIndex_of_count (shardCount_respond c request) ip
      exact ih (homed_respond homed request) unset'
        (fun wish now member => expired wish now (List.mem_cons_of_mem _ member)) (index ▸ later)

/-- An entry that is there before a run with calls enough, and expired at each of them, is gone after
it unless the address is set anew. -/
theorem find?_eq_none_of_rounds (homed : Homed c) (divides : c.shardCount ∣ cursorLimit)
    (enough : c.shardCount ≤ totalOf c.budgetOf requests) (found : c.find? ip = some entry)
    (unset : ∀ entry, .set ip entry ∉ requests)
    (expired : ∀ wish now, .cleanupPartial wish now ∈ requests → entry.isExpired now = true) :
    (c.respondAll requests).1.find? ip = none := by
  have visited := mem_visits divides enough (shardIndex_lt homed.some' ip)
  refine Option.eq_none_iff_forall_ne_some.mpr fun other left => ?_
  have same : other = entry := Option.some.inj ((find?_of_respondAll homed unset left).symm.trans found)
  exact not_found_of_visited homed unset expired visited (same ▸ left)

end Removal

section Counts

variable {c : ShardedCache} {now : Int} {requests : List CacheRequest}

theorem Cleaned.append {c' c'' : ShardedCache} {places places' : List Nat}
    (early : Cleaned c places now c') (late : Cleaned c' places' now c'') :
    Cleaned c (places ++ places') now c'' where
  shards := by
    intro index
    rw [late.shards, early.shards]
    -- a shard that is cleaned twice is as if it were cleaned once
    by_cases first : index ∈ places <;> by_cases second : index ∈ places' <;>
      simp [List.mem_append, first, second, keepLive_keepLive, Function.comp_def]
  count := late.count.trans early.count

theorem cleaned_of_reads {request : CacheRequest} (reads : request.isRead = true) :
    (c.respond request).1 = c ∧ c.budgetOf request = 0 := by
  cases request with
  | get _ | size | isEmpty | entries => exact ⟨rfl, rfl⟩
  | _ => cases reads

theorem cleaned_respondAll (sweeps : ∀ request ∈ requests, request.SweepsAt now) :
    Cleaned c (c.visits requests) now (c.respondAll requests).1 := by
  induction requests generalizing c with
  | nil => exact ⟨fun index => (if_neg List.not_mem_nil).symm, rfl⟩
  | cons request rest ih =>
    have tail := @ih (c.respond request).1 fun other member => sweeps other (List.mem_cons_of_mem _ member)
    refine Cleaned.append ?_ tail
    rcases sweeps request List.mem_cons_self with reads | ⟨wish, rfl⟩
    · obtain ⟨same, none'⟩ := cleaned_of_reads (c := c) reads
      rw [same, none']
      exact ⟨fun index => (if_neg List.not_mem_nil).symm, rfl⟩
    · exact cleaned_cleanupPartial c wish now

theorem size_cleanupPartial_le (c : ShardedCache) (wish : Nat) (now : Int) :
    (c.cleanupPartial wish now).1.size ≤ c.size := by
  have each (places : List Nat) (shards : List (Keyed CacheEntry)) :
      totalOf Keyed.size (modifyAll (keepLive now) places shards) ≤ totalOf Keyed.size shards := by
    unfold modifyAll
    induction places generalizing shards with
    | nil => exact Nat.le_refl _
    | cons place rest ih =>
      rw [List.foldl_cons]
      refine Nat.le_trans (ih _) ?_
      cases here : shards[place]? with
      | none => rw [List.modify_eq_self (List.getElem?_eq_none_iff.mp here)]
      | some shard =>
        have total := totalOf_modify Keyed.size here (keepLive now)
        have smaller : (keepLive now shard).size ≤ shard.size := List.length_filter_le ..
        omega
  exact each _ _

theorem removedByAll_add_size (sweeps : ∀ request ∈ requests, request.SweepsAt now) :
    c.removedByAll requests + (c.respondAll requests).1.size = c.size := by
  induction requests generalizing c with
  | nil => exact Nat.zero_add _
  | cons request rest ih =>
    have tail := @ih (c.respond request).1 fun other member => sweeps other (List.mem_cons_of_mem _ member)
    have all : (c.respondAll (request :: rest)).1 = ((c.respond request).1.respondAll rest).1 := rfl
    rw [removedByAll, all, Nat.add_assoc, tail]
    rcases sweeps request List.mem_cons_self with reads | ⟨wish, rfl⟩
    · have none' : c.removedBy request = 0 := by
        cases request with
        | get _ | size | isEmpty | entries => rfl
        | _ => cases reads
      rw [none', (cleaned_of_reads reads).1, Nat.zero_add]
    · exact Nat.sub_add_cancel (size_cleanupPartial_le c wish now)

/-- Calls enough at one time leave and remove what one whole cleanup would. -/
theorem shards_of_rounds (divides : c.shardCount ∣ cursorLimit)
    (enough : c.shardCount ≤ totalOf c.budgetOf requests)
    (sweeps : ∀ request ∈ requests, request.SweepsAt now) :
    (c.respondAll requests).1.shards = (c.cleanup now).1.shards := by
  apply List.ext_getElem?
  intro index
  rw [(cleaned_respondAll sweeps).shards, (cleaned_cleanup c now).shards]
  by_cases below : index < c.shardCount
  · rw [if_pos (mem_visits divides enough below), if_pos (List.mem_range.mpr below)]
  · have outside : c.shards[index]? = none := List.getElem?_eq_none (Nat.not_lt.mp below)
    rw [outside, Option.map_none, ite_self, ite_self]

theorem removedByAll_of_rounds (divides : c.shardCount ∣ cursorLimit)
    (enough : c.shardCount ≤ totalOf c.budgetOf requests)
    (sweeps : ∀ request ∈ requests, request.SweepsAt now) :
    c.removedByAll requests = (c.cleanup now).2 := by
  have size : (c.respondAll requests).1.size = (c.cleanup now).1.size := by
    rw [ShardedCache.size, ShardedCache.size, shards_of_rounds divides enough sweeps]
  have parts := removedByAll_add_size (c := c) sweeps
  have count : (c.cleanup now).2 = c.size - (c.cleanup now).1.size := rfl
  omega

end Counts

section Rounds

def withCursor (wish : Nat) (before : List CacheRequest) (cursor : Nat) : ShardedCache :=
  { ((make wish).respondAll before).1 with cursor }

theorem homed_withCursor (wish : Nat) (before : List CacheRequest) (cursor : Nat) :
    Homed (withCursor wish before cursor) := by
  obtain ⟨m, -, represents⟩ := represents_respondAll (represents_make wish) before
  exact ⟨represents.homed.some', represents.homed.home⟩

theorem divides_withCursor (wish : Nat) (before : List CacheRequest) (cursor : Nat) :
    (withCursor wish before cursor).shardCount ∣ cursorLimit := by
  have count : (withCursor wish before cursor).shardCount = (make wish).shardCount :=
    shardCount_respondAll (make wish) before
  rw [count, shardCount_make]
  exact shardCountFor_dvd wish

/-- Wherever the cursor of a cache stands, partial cleanups visit its shards in a ring without a gap,
whatever else is asked of the cache in between. A call takes what is expired in the shards that it
visits, and nothing else. Once the budgets add up to the number of shards, all of them were visited: of
the entries that were there at first, and whose addresses were not set anew, none is left that was
expired at every call; and with nothing but lookups in between, calls at one time leave what a whole
cleanup leaves and remove as much. -/
theorem rounds_cover (wish : Nat) (before : List CacheRequest) (cursor : Nat)
    (requests : List CacheRequest) :
    let c := withCursor wish before cursor
    c.visits requests =
      ((List.range (totalOf c.budgetOf requests)).map fun k => (cursor + k) % c.shardCount) ∧
    (∀ front wish now back, requests = front ++ .cleanupPartial wish now :: back →
      let c' := (c.respondAll front).1
      ∀ ip, (c'.respond (.cleanupPartial wish now)).1.find? ip = (c'.find? ip).filter fun entry =>
        !(decide (c'.shardIndex ip ∈ c'.visited (c'.budgetFor wish)) && entry.isExpired now)) ∧
    (c.shardCount ≤ totalOf c.budgetOf requests →
      (∀ index < c.shardCount, index ∈ c.visits requests) ∧
      (∀ ip entry, c.find? ip = some entry → (∀ other, .set ip other ∉ requests) →
        (∀ wish now, .cleanupPartial wish now ∈ requests → entry.isExpired now = true) →
        (c.respondAll requests).1.find? ip = none) ∧
      ∀ now, (∀ request ∈ requests, request.SweepsAt now) →
        c.removedByAll requests = (c.cleanup now).2 ∧
        (c.respondAll requests).1.shards = (c.cleanup now).1.shards) := by
  intro c
  have homed : Homed c := homed_withCursor wish before cursor
  have divides : c.shardCount ∣ cursorLimit := divides_withCursor wish before cursor
  refine ⟨visits_eq divides requests, ?_, fun enough => ⟨?_, ?_, ?_⟩⟩
  · intro front wish now back _ c' ip
    exact find?_cleanupPartial c' wish now ip
  · exact fun index below => mem_visits divides enough below
  · intro ip entry found unset expired
    exact find?_eq_none_of_rounds homed divides enough found unset expired
  · exact fun now sweeps => ⟨removedByAll_of_rounds divides enough sweeps,
      shards_of_rounds divides enough sweeps⟩

/-- Two shards, the cursor at the end of its range, and two calls with no budget, which visit one shard
each. -/
theorem rounds_cover_at_wrap :
    let entry := CacheEntry.make 5 .zero .icmp 10 20
    let c := withCursor 2 [.set "10.0.0.1" entry] Unsigned.greatest64
    let requests : List CacheRequest := [.cleanupPartial 0 20, .get "10.0.0.1", .cleanupPartial 0 20]
    c.visits requests = [1, 0] ∧ (c.respondAll requests).1.find? "10.0.0.1" = none ∧
      c.removedByAll requests = (c.cleanup 20).2 := by
  intro entry c requests
  obtain ⟨ring, -, covers⟩ := rounds_cover 2 [.set "10.0.0.1" entry] Unsigned.greatest64 requests
  have count : c.shardCount = 2 := (shardCount_insert _ _ _).trans (by decide +kernel)
  have budgets : totalOf c.budgetOf requests = 2 := by
    simp only [requests, totalOf, budgetOf, budgetFor, count]
    decide
  obtain ⟨-, gone, counts⟩ := covers (by rw [count, budgets])
  refine ⟨?_, ?_, ?_⟩
  · rw [ring, budgets, count]
    decide
  · refine gone "10.0.0.1" entry ?_ (by simp [requests]) (by simp [requests, entry]; decide)
    exact (find?_insert (homed_make 2).some' _ _ _).trans (if_pos rfl)
  · exact (counts 20 (by simp [requests, CacheRequest.SweepsAt, CacheRequest.isRead])).1

end Rounds

end ShardedCache

end LatencyRank
