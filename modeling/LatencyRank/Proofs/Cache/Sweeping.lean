import Mathlib
import LatencyRank.Ranker.Step
import LatencyRank.Proofs.Cache.Homes

/-!
A cleanup of the cache is never seen in what is looked up. It takes what is expired, a lookup passes
that over, and time does not run backwards: what was expired once is so at every later lookup. So two
caches that differ in expired entries only are alike from then on.
-/

namespace LatencyRank

inductive CacheAct where
  | set (ip : String) (entry : CacheEntry)
  | delete (ip : String)
  | clear
  | lookUp (ip : String) (now : Int)
  | cleanup (now : Int)
  | cleanupPartial (wish : Nat) (now : Int)

namespace CacheAct

def isCleanup : CacheAct → Bool
  | cleanup _ | cleanupPartial .. => true
  | _ => false

/-- The time of a lookup or a cleanup; nothing else asks for it. -/
def time? : CacheAct → Option Int
  | lookUp _ now | cleanup now | cleanupPartial _ now => some now
  | _ => none

def InOrder (acts : List CacheAct) : Prop := (acts.filterMap time?).Pairwise (· ≤ ·)

instance (acts : List CacheAct) : Decidable (InOrder acts) :=
  inferInstanceAs (Decidable (List.Pairwise _ _))

def unswept (acts : List CacheAct) : List CacheAct := acts.filter fun act => !act.isCleanup

end CacheAct

namespace ShardedCache

def lookUp (settings : Settings) (c : ShardedCache) (ip : String) (now : Int) : Option Measurement :=
  if settings.usesCache then (c.find? ip).bind fun entry => entry.serve ip now else none

def perform (c : ShardedCache) : CacheAct → ShardedCache
  | .set ip entry => c.insert ip entry
  | .delete ip => c.erase ip
  | .clear => c.clear
  | .lookUp .. => c
  | .cleanup now => (c.cleanup now).1
  | .cleanupPartial wish now => (c.cleanupPartial wish now).1

def answers (settings : Settings) (c : ShardedCache) : CacheAct → List (Option Measurement)
  | .lookUp ip now => [c.lookUp settings ip now]
  | _ => []

def answersTo (settings : Settings) (c : ShardedCache) : List CacheAct → List (Option Measurement)
  | [] => []
  | act :: rest => c.answers settings act ++ answersTo settings (c.perform act) rest

section Live

variable {c c' : ShardedCache} {now : Int} {ip : String}

/-- The entry of an address, unless it is expired. -/
def live (c : ShardedCache) (now : Int) (ip : String) : Option CacheEntry :=
  (c.find? ip).filter fun entry => isLive now (ip, entry)

theorem serve_eq_none {entry : CacheEntry} (expired : entry.isExpired now = true) :
    entry.serve ip now = none := by
  rw [CacheEntry.serve, if_pos expired]

theorem lookUp_eq (settings : Settings) (c : ShardedCache) (ip : String) (now : Int) :
    c.lookUp settings ip now =
      if settings.usesCache then (c.live now ip).bind fun entry => entry.serve ip now else none := by
  unfold lookUp live
  cases c.find? ip with
  | none => rfl
  | some entry =>
    cases expired : entry.isExpired now with
    | true =>
      rw [Option.filter_some, Option.bind_some, serve_eq_none expired]
      simp [isLive, expired]
    | false =>
      rw [Option.filter_some]
      simp [isLive, expired]

theorem live_insert (homed : Homed c) (ip other : String) (entry : CacheEntry) (now : Int) :
    (c.insert ip entry).live now other =
      if other = ip then (some entry).filter fun entry => isLive now (other, entry)
      else c.live now other := by
  rw [live, find?_insert homed.some']
  split <;> rfl

theorem live_erase (homed : Homed c) (ip other : String) (now : Int) :
    (c.erase ip).live now other = if other = ip then none else c.live now other := by
  rw [live, find?_erase homed]
  split <;> rfl

theorem live_clear (c : ShardedCache) (now : Int) (ip : String) : c.clear.live now ip = none := by
  rw [live, find?_clear]
  rfl

/-- What a cleanup takes is expired then, and is so later. -/
theorem live_cleaned {places : List Nat} {early : Int} (cleaned : Cleaned c places early c')
    (later : early ≤ now) : c'.live now ip = c.live now ip := by
  rw [live, live, find?_cleaned cleaned, Option.filter_filter]
  congr 1
  funext entry
  cases alive : isLive now (ip, entry) with
  | false => exact Bool.and_false _
  | true =>
    have alive' : isLive early (ip, entry) = true := by
      simp only [isLive, CacheEntry.isExpired, Bool.not_eq_true', decide_eq_false_iff_not] at alive ⊢
      exact fun expired => alive (le_trans expired later)
    rw [alive', Bool.or_true, Bool.and_true]

end Live

section Alike

/-- Two caches that at each of some times differ in expired entries only. -/
structure Alike (times : List Int) (c c' : ShardedCache) : Prop where
  homed : Homed c
  homed' : Homed c'
  live : ∀ now ∈ times, ∀ ip, c.live now ip = c'.live now ip

variable {times : List Int} {c c' : ShardedCache} {act : CacheAct}

theorem Alike.mono {fewer : List Int} (alike : Alike times c c') (among : fewer ⊆ times) :
    Alike fewer c c' :=
  ⟨alike.homed, alike.homed', fun now member => alike.live now (among member)⟩

theorem alike_make (wish wish' : Nat) (times : List Int) : Alike times (make wish) (make wish') where
  homed := homed_make wish
  homed' := homed_make wish'
  live now _ ip := by rw [ShardedCache.live, ShardedCache.live, find?_make, find?_make]

theorem Alike.answers (alike : Alike times c c') (settings : Settings)
    (among : ∀ now, act.time? = some now → now ∈ times) :
    c.answers settings act = c'.answers settings act := by
  cases act with
  | lookUp ip now =>
    have same := alike.live now (among now rfl) ip
    rw [ShardedCache.answers, ShardedCache.answers, lookUp_eq, lookUp_eq, same]
  | _ => rfl

/-- What is done to both caches leaves them alike. -/
theorem Alike.perform (alike : Alike times c c') (visible : act.isCleanup = false) :
    Alike times (c.perform act) (c'.perform act) := by
  cases act with
  | set ip entry =>
    refine ⟨homed_insert alike.homed ip entry, homed_insert alike.homed' ip entry, ?_⟩
    intro now member other
    rw [ShardedCache.perform, ShardedCache.perform, live_insert alike.homed, live_insert alike.homed',
      alike.live now member other]
  | delete ip =>
    refine ⟨homed_erase alike.homed ip, homed_erase alike.homed' ip, ?_⟩
    intro now member other
    rw [ShardedCache.perform, ShardedCache.perform, live_erase alike.homed, live_erase alike.homed',
      alike.live now member other]
  | clear =>
    refine ⟨homed_clear alike.homed, homed_clear alike.homed', ?_⟩
    intro now _ other
    exact (live_clear c now other).trans (live_clear c' now other).symm
  | lookUp ip now => exact alike
  | cleanup now => cases visible
  | cleanupPartial wish now => cases visible

theorem Alike.cleaned {places : List Nat} {now : Int} {c'' : ShardedCache} (alike : Alike times c c')
    (cleaned : Cleaned c' places now c'') (early : ∀ later ∈ times, now ≤ later) : Alike times c c'' where
  homed := alike.homed
  homed' := homed_cleaned alike.homed' cleaned
  live later member ip :=
    (alike.live later member ip).trans (live_cleaned cleaned (early later member)).symm

/-- A cleanup of one of the caches leaves them alike from its time on. -/
theorem Alike.sweep (alike : Alike times c c') (cleanup : act.isCleanup = true)
    (early : ∀ now, act.time? = some now → ∀ later ∈ times, now ≤ later) :
    Alike times c (c'.perform act) := by
  cases act with
  | cleanup now => exact alike.cleaned (cleaned_cleanup c' now) (early now rfl)
  | cleanupPartial wish now => exact alike.cleaned (cleaned_cleanupPartial c' wish now) (early now rfl)
  | _ => cases cleanup

end Alike

section Runs

variable {c c' : ShardedCache}

theorem answersTo_unswept (settings : Settings) {acts : List CacheAct} (orderly : CacheAct.InOrder acts)
    (alike : Alike (acts.filterMap CacheAct.time?) c c') :
    c.answersTo settings (CacheAct.unswept acts) = c'.answersTo settings acts := by
  induction acts generalizing c c' with
  | nil => rfl
  | cons act rest ih =>
    -- the times that are still to come
    have fewer : rest.filterMap CacheAct.time? ⊆ (act :: rest).filterMap CacheAct.time? :=
      (List.Sublist.filterMap _ (List.sublist_cons_self act rest)).subset
    have orderly' : CacheAct.InOrder rest :=
      List.Pairwise.sublist (List.Sublist.filterMap _ (List.sublist_cons_self act rest)) orderly
    cases cleanup : act.isCleanup with
    | true =>
      have silent : c'.answers settings act = [] := by
        cases act with
        | lookUp ip now => cases cleanup
        | _ => rfl
      have early : ∀ now, act.time? = some now →
          ∀ later ∈ rest.filterMap CacheAct.time?, now ≤ later := by
        intro now time later member
        rw [CacheAct.InOrder, List.filterMap_cons_some time] at orderly
        exact List.rel_of_pairwise_cons orderly member
      have same := ih orderly' ((alike.mono fewer).sweep cleanup early)
      rw [answersTo, silent, List.nil_append, ← same, CacheAct.unswept, CacheAct.unswept,
        List.filter_cons_of_neg (by simp [cleanup])]
    | false =>
      have among : ∀ now, act.time? = some now → now ∈ (act :: rest).filterMap CacheAct.time? :=
        fun now time => List.mem_filterMap.mpr ⟨act, List.mem_cons_self, time⟩
      have same := ih orderly' ((alike.mono fewer).perform cleanup)
      rw [CacheAct.unswept, List.filter_cons_of_pos (by simp [cleanup]), answersTo, answersTo,
        alike.answers settings among, ← same, CacheAct.unswept]

/-- Two runs that differ in cleanups only, each of which may be of any size and come at any time that
is in order, answer every lookup alike. The caches may even have different numbers of shards. The
answer to a lookup is what a ranker is served from its cache at that time. -/
theorem cleanups_unseen (settings : Settings) (wish wish' : Nat) (acts acts' : List CacheAct)
    (orderly : CacheAct.InOrder acts) (orderly' : CacheAct.InOrder acts')
    (same : CacheAct.unswept acts = CacheAct.unswept acts') :
    (make wish).answersTo settings acts = (make wish').answersTo settings acts' ∧
      ∀ {σ : Type} (r : Ranker σ) (ip : String),
        r.served ip = r.cache.lookUp r.settings ip r.wall := by
  refine ⟨?_, fun r ip => rfl⟩
  rw [← answersTo_unswept settings orderly (alike_make wish wish _), same]
  exact answersTo_unswept settings orderly' (alike_make wish wish' _)

/-- An entry is set and looked up before and after it expires, where one run is swept in between. -/
theorem cleanups_unseen_of_expiry :
    let entry := CacheEntry.make 5 .zero .icmp 10 20
    let acts : List CacheAct := [.set "10.0.0.1" entry, .lookUp "10.0.0.1" 15, .lookUp "10.0.0.1" 20]
    let acts' : List CacheAct := [.set "10.0.0.1" entry, .cleanup 12, .lookUp "10.0.0.1" 15,
      .cleanupPartial 1 20, .lookUp "10.0.0.1" 20]
    (make 1).answersTo {} acts = (make 4).answersTo {} acts' := by
  intro entry acts acts'
  have orderly : CacheAct.InOrder acts := by decide
  have orderly' : CacheAct.InOrder acts' := by decide
  exact (cleanups_unseen {} 1 4 acts acts' orderly orderly' rfl).1

end Runs

end ShardedCache

end LatencyRank
