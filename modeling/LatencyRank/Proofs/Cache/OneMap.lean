import Mathlib
import LatencyRank.Proofs.Cache.Homes

/-!
The sharded cache is one map. Whatever is asked of it in whatever order, it answers as a plain map
from addresses to entries does. The shards show only in which of the expired entries a partial
cleanup takes.
-/

namespace LatencyRank

inductive CacheRequest where
  | set (ip : String) (entry : CacheEntry)
  | get (ip : String)
  | delete (ip : String)
  | cleanup (now : Int)
  | cleanupPartial (wish : Nat) (now : Int)
  | size
  | isEmpty
  | clear
  | entries

namespace CacheRequest

def isPartial : CacheRequest → Bool
  | cleanupPartial .. => true
  | _ => false

end CacheRequest

inductive CacheAnswer where
  | done
  | entry (found : Option CacheEntry)
  | count (number : Nat)
  | truth (holds : Bool)
  | entries (all : List (String × CacheEntry))
deriving DecidableEq

namespace ShardedCache

def respond (c : ShardedCache) : CacheRequest → ShardedCache × CacheAnswer
  | .set ip entry => (c.insert ip entry, .done)
  | .get ip => (c, .entry (c.find? ip))
  | .delete ip => (c.erase ip, .done)
  | .cleanup now => ((c.cleanup now).1, .count (c.cleanup now).2)
  | .cleanupPartial wish now => ((c.cleanupPartial wish now).1, .count (c.cleanupPartial wish now).2)
  | .size => (c, .count c.size)
  | .isEmpty => (c, .truth c.isEmpty)
  | .clear => (c.clear, .done)
  | .entries => (c, .entries c.toList)

def respondAll (c : ShardedCache) : List CacheRequest → ShardedCache × List CacheAnswer
  | [] => (c, [])
  | request :: rest =>
    let (c, answer) := c.respond request
    let (c, answers) := c.respondAll rest
    (c, answer :: answers)

end ShardedCache

namespace Keyed

/-- How one plain map answers a request. -/
inductive Answers (m : Keyed CacheEntry) : CacheRequest → Keyed CacheEntry → CacheAnswer → Prop
  | set (ip : String) (entry : CacheEntry) : Answers m (.set ip entry) (m.insert ip entry) .done
  | get (ip : String) : Answers m (.get ip) m (.entry (m.find? ip))
  | delete (ip : String) : Answers m (.delete ip) (m.erase ip) .done
  /-- What is expired goes, and nothing else does. -/
  | cleanup (now : Int) : Answers m (.cleanup now) (m.filter fun entry => !entry.2.isExpired now)
      (.count (m.entries.countP fun entry => entry.2.isExpired now))
  /-- Something may go, if it is expired. -/
  | cleanupPartial (wish : Nat) (now : Int) (keep : String × CacheEntry → Bool)
      (expired : ∀ entry, keep entry = false → entry.2.isExpired now = true) :
      Answers m (.cleanupPartial wish now) (m.filter keep)
        (.count (m.entries.countP fun entry => !keep entry))
  | size : Answers m .size m (.count m.size)
  | isEmpty : Answers m .isEmpty m (.truth (decide (m.entries = [])))
  | clear : Answers m .clear .empty .done
  | entries : Answers m .entries m (.entries (ShardedCache.sorted m))

inductive AnswersAll : Keyed CacheEntry → List CacheRequest → Keyed CacheEntry →
    List CacheAnswer → Prop
  | nil (m : Keyed CacheEntry) : AnswersAll m [] m []
  | cons {first middle last : Keyed CacheEntry} {request : CacheRequest}
      {requests : List CacheRequest} {answer : CacheAnswer} {answers : List CacheAnswer}
      (head : first.Answers request middle answer) (tail : AnswersAll middle requests last answers) :
      AnswersAll first (request :: requests) last (answer :: answers)

theorem answers_unique {m n n' : Keyed CacheEntry} {request : CacheRequest}
    {answer answer' : CacheAnswer} (whole : request.isPartial = false)
    (early : m.Answers request n answer) (late : m.Answers request n' answer') :
    n = n' ∧ answer = answer' := by
  cases early with
  | cleanupPartial wish now keep expired => cases whole
  | _ =>
      cases late
      exact ⟨rfl, rfl⟩

theorem answersAll_unique {m n n' : Keyed CacheEntry} {requests : List CacheRequest}
    {answers answers' : List CacheAnswer}
    (whole : ∀ request ∈ requests, request.isPartial = false)
    (early : AnswersAll m requests n answers) (late : AnswersAll m requests n' answers') :
    answers = answers' := by
  induction early generalizing answers' with
  | nil m =>
      cases late
      rfl
  | cons head tail ih =>
      cases late with
      | cons head' tail' =>
          obtain ⟨rfl, rfl⟩ := answers_unique (whole _ List.mem_cons_self) head head'
          rw [ih (fun request member => whole request (List.mem_cons_of_mem _ member)) tail']

end Keyed

namespace ShardedCache

section Requests

variable {c : ShardedCache} {m : Keyed CacheEntry}

theorem represents_cleaned {places : List Nat} {now : Int} {c' : ShardedCache}
    (represents : Represents c m) (cleaned : Cleaned c places now c') :
    Represents c' (m.filter fun entry =>
      !decide (c.shardIndex entry.1 ∈ places) || isLive now entry) where
  homed := homed_cleaned represents.homed cleaned
  finds := by
    intro ip
    rw [find?_cleaned cleaned, Keyed.find?_filter, represents.finds]

/-- Every request is answered as by the plain map. -/
theorem represents_respond (represents : Represents c m) (request : CacheRequest) :
    ∃ m', m.Answers request m' (c.respond request).2 ∧ Represents (c.respond request).1 m' := by
  cases request with
  | set ip entry =>
      refine ⟨_, .set ip entry, homed_insert represents.homed ip entry, fun other => ?_⟩
      rw [respond, find?_insert represents.homed.some', Keyed.find?_insert, represents.finds]
  | get ip =>
      rw [respond, represents.finds]
      exact ⟨m, .get ip, represents⟩
  | delete ip =>
      refine ⟨_, .delete ip, homed_erase represents.homed ip, fun other => ?_⟩
      rw [respond, find?_erase represents.homed, Keyed.find?_erase, represents.finds]
  | cleanup now =>
      have cleaned := represents_cleaned represents (cleaned_cleanup c now)
      -- every shard is visited, so that what goes is all that is expired
      have all (ip : String) : c.shardIndex ip ∈ List.range c.shardCount :=
        List.mem_range.mpr (shardIndex_lt represents.homed.some' ip)
      have removed := removed_eq represents _ cleaned
      simp only [all, decide_true, Bool.not_true, Bool.false_or, isLive, Bool.not_not] at cleaned removed
      have count : (c.cleanup now).2 = c.size - (c.cleanup now).1.size := rfl
      rw [respond, count, removed]
      exact ⟨_, .cleanup now, cleaned⟩
  | cleanupPartial wish now =>
      have cleaned := represents_cleaned represents (cleaned_cleanupPartial c wish now)
      have count : (c.cleanupPartial wish now).2 =
          c.size - (c.cleanupPartial wish now).1.size := rfl
      rw [respond, count, removed_eq represents _ cleaned]
      refine ⟨_, .cleanupPartial wish now _ ?_, cleaned⟩
      intro entry gone
      simpa [isLive] using (Bool.or_eq_false_iff.mp gone).2
  | size =>
      rw [respond, represents.size]
      exact ⟨m, .size, represents⟩
  | isEmpty =>
      have same : c.isEmpty = decide (m.entries = []) := by
        rw [isEmpty, represents.size, Keyed.size]
        cases m.entries <;> rfl
      rw [respond, same]
      exact ⟨m, .isEmpty, represents⟩
  | clear =>
      refine ⟨_, .clear, homed_clear represents.homed, fun ip => ?_⟩
      rw [respond, find?_clear]
      rfl
  | entries =>
      rw [respond, represents.toList]
      exact ⟨m, .entries, represents⟩

theorem represents_respondAll (represents : Represents c m) (requests : List CacheRequest) :
    ∃ m', Keyed.AnswersAll m requests m' (c.respondAll requests).2 ∧
      Represents (c.respondAll requests).1 m' := by
  induction requests generalizing c m with
  | nil => exact ⟨m, .nil m, represents⟩
  | cons request rest ih =>
      obtain ⟨middle, head, represents'⟩ := represents_respond represents request
      obtain ⟨last, tail, represents''⟩ := ih represents'
      exact ⟨last, .cons head tail, represents''⟩

theorem represents_make (wish : Nat) : Represents (make wish) .empty where
  homed := homed_make wish
  finds := find?_make wish

end Requests

section OneMap

/-- Whatever number of shards is wished for, a new cache answers all requests as one empty map does.
The map then and the cache hold the same; no address is led past the shards; and if no partial
cleanup is asked for, a cache made for any other wish gives the same answers. -/
theorem one_map (wish : Nat) (requests : List CacheRequest) :
    let (c, answers) := (make wish).respondAll requests
    (∃ m, Keyed.AnswersAll .empty requests m answers ∧ Represents c m) ∧
      (∀ ip, c.shardIndex ip < c.shardCount) ∧
      ((∀ request ∈ requests, request.isPartial = false) →
        ∀ other, ((make other).respondAll requests).2 = answers) := by
  obtain ⟨m, answered, represents⟩ := represents_respondAll (represents_make wish) requests
  refine ⟨⟨m, answered, represents⟩, shardIndex_lt represents.homed.some', fun whole other => ?_⟩
  obtain ⟨m', answered', -⟩ := represents_respondAll (represents_make other) requests
  exact Keyed.answersAll_unique whole answered' answered

/-- With one shard and with as many as there can be, a new entry takes the place of the old one. -/
theorem one_map_of_replaced :
    let early : CacheEntry := .make 20 .zero .tls 3000 33000
    let late : CacheEntry := .make 90 .zero .icmp 4000 34000
    let requests : List CacheRequest :=
      [.set "10.0.0.1" early, .set "10.0.0.1" late, .get "10.0.0.1", .cleanup 33000, .size]
    let answers : List CacheAnswer := [.done, .done, .entry (some late), .count 0, .count 1]
    (∀ request ∈ requests, request.isPartial = false) ∧ ((make 1).respondAll requests).2 = answers ∧
      ((make Unsigned.greatest64).respondAll requests).2 = answers := by
  intro early late requests answers
  have whole : ∀ request ∈ requests, request.isPartial = false := by
    simp [requests, CacheRequest.isPartial]
  have single : ((make 1).respondAll requests).2 = answers := by decide +kernel
  exact ⟨whole, single, ((one_map 1 requests).2.2 whole Unsigned.greatest64).trans single⟩

end OneMap

end ShardedCache

end LatencyRank
