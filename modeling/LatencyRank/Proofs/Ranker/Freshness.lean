import Mathlib
import LatencyRank.Probe.Script
import LatencyRank.Proofs.Ranker.Accounts
import LatencyRank.Proofs.Ranker.Repertoire
import LatencyRank.Proofs.Ranker.Revalidation
import LatencyRank.Proofs.Ranking.Lifetime
import LatencyRank.Proofs.Settings.Document

/-!
How long a measurement is served. What is stored is fresh at first, and then stale for the time of
grace, as far as both times are within the signed range; a time past it wraps before it becomes
milliseconds, and an entry is stale or expired when it is stored.
-/

namespace LatencyRank

namespace Settings

variable {seconds more : Nat}

theorem milliseconds_eq (inside : seconds ≤ Signed.highest) :
    milliseconds seconds = min (1000 * (seconds : Int)) Signed.highest := by
  rw [milliseconds, Signed.ofUnsigned, if_pos inside]
  simp only [Signed.mul, Signed.clamp, Signed.lowest, Signed.highest] at *
  omega

theorem milliseconds_le (le : seconds ≤ more) (inside : more ≤ Signed.highest) :
    milliseconds seconds ≤ milliseconds more := by
  rw [milliseconds_eq inside, milliseconds_eq (by omega)]
  omega

/-- A time past the signed range is one in the past. -/
theorem milliseconds_wraps (outside : Signed.highest < seconds) (word : seconds ≤ Unsigned.greatest64) :
    milliseconds seconds ≤ -1000 := by
  rw [milliseconds, Signed.ofUnsigned, if_neg (Int.not_le.mpr outside)]
  simp only [Signed.mul, Signed.clamp, Signed.lowest, Signed.highest, Unsigned.greatest64] at *
  omega

/-- Neither time of the cache is past the signed range. -/
structure Timely (s : Settings) : Prop where
  fresh : s.freshSeconds ≤ Signed.highest
  grace : s.graceSeconds ≤ Signed.highest

end Settings

namespace Ranker

section Entries

/-- An entry is fresh at a time, and then stale for as long as the grace says, or until times end. -/
structure Lasting (s : Settings) (wall : Int) (entry : CacheEntry) : Prop where
  fresh : wall < entry.staleAt
  ordered : entry.staleAt ≤ entry.expiresAt
  grace : entry.expiresAt = min (entry.staleAt + 1000 * s.graceSeconds) Signed.highest

variable {s s' : Settings} {wall : Int} {m : Measurement}

theorem staleAt_entryFor (s : Settings) (wall : Int) (m : Measurement) :
    (entryFor s wall m).staleAt =
      min (Signed.add wall (m.lifetime s.baseLifetime)) (entryFor s wall m).expiresAt := rfl

theorem expiresAt_entryFor (s : Settings) (wall : Int) (m : Measurement) :
    (entryFor s wall m).expiresAt =
      Signed.add (Signed.add wall (m.lifetime s.baseLifetime)) s.grace := rfl

theorem lifetime_of_used (used : 0 < s.freshSeconds) (inside : s.freshSeconds ≤ Signed.highest)
    (m : Measurement) : 0 < m.lifetime s.baseLifetime := by
  refine m.lifetime_pos ?_
  rw [Settings.baseLifetime, Settings.milliseconds_eq inside]
  simp only [Signed.highest]
  omega

theorem staleAt_of_wrapped (outside : Signed.highest < s.freshSeconds)
    (word : s.freshSeconds ≤ Unsigned.greatest64) (since : 0 ≤ wall) (m : Measurement) :
    (entryFor s wall m).staleAt < wall := by
  have before := m.lifetime_lt_zero (Settings.milliseconds_wraps outside word)
  rw [staleAt_entryFor]
  refine Int.lt_of_le_of_lt (Int.min_le_left _ _) ?_
  simp only [Settings.baseLifetime, Signed.add, Signed.clamp, Signed.lowest, Signed.highest]
  omega

theorem expiresAt_of_wrapped (outside : Signed.highest < s.graceSeconds)
    (word : s.graceSeconds ≤ Unsigned.greatest64) (wall : Int) (m : Measurement) :
    (entryFor s wall m).expiresAt < min ((entryFor s wall m).staleAt + 1000 * s.graceSeconds)
      Signed.highest := by
  have before := Settings.milliseconds_wraps outside word
  rw [staleAt_entryFor, expiresAt_entryFor, Settings.grace]
  simp only [Signed.add, Signed.clamp, Signed.lowest, Signed.highest] at *
  omega

/-- An entry is as it should be exactly if neither time wraps. -/
theorem lasting_iff (fits : s.Fits) (used : 0 < s.freshSeconds) (since : 0 ≤ wall)
    (until' : wall < Signed.highest) : Lasting s wall (entryFor s wall m) ↔ s.Timely := by
  constructor
  · -- a wrapped lifetime breaks the first of the three, a wrapped grace the last
    intro lasting
    constructor
    · by_contra outside
      have stale := staleAt_of_wrapped (Int.not_le.mp outside) fits.freshSeconds since m
      exact absurd lasting.fresh (Int.lt_asymm stale)
    · by_contra outside
      have early := expiresAt_of_wrapped (Int.not_le.mp outside) fits.graceSeconds wall m
      exact absurd lasting.grace (Int.ne_of_lt early)
  · intro timely
    have some' := lifetime_of_used used timely.fresh m
    have expires := expiresAt_entryFor s wall m
    have stale := staleAt_entryFor s wall m
    rw [Settings.grace, Settings.milliseconds_eq timely.grace] at expires
    simp only [Signed.add, Signed.clamp, Signed.lowest, Signed.highest] at *
    exact ⟨by omega, by omega, by simp only [Signed.highest]; omega⟩

theorem baseLifetime_nonneg (inside : s.freshSeconds ≤ Signed.highest) : 0 ≤ s.baseLifetime := by
  rw [Settings.baseLifetime, Settings.milliseconds_eq inside]
  simp only [Signed.highest]
  omega

theorem expiresAt_mono (timely : s'.Timely) (fresh : s.freshSeconds ≤ s'.freshSeconds)
    (grace : s.graceSeconds ≤ s'.graceSeconds) (wall : Int) (m : Measurement) :
    (entryFor s wall m).expiresAt ≤ (entryFor s' wall m).expiresAt := by
  have positive : 0 ≤ s.baseLifetime :=
    baseLifetime_nonneg (Int.le_trans (Int.ofNat_le.mpr fresh) timely.fresh)
  have lifetimes := m.lifetime_mono positive (Settings.milliseconds_le fresh timely.fresh)
  rw [expiresAt_entryFor, expiresAt_entryFor]
  exact Signed.add_le_add (Signed.add_le_add (Int.le_refl _) lifetimes)
    (Settings.milliseconds_le grace timely.grace)

end Entries

section Storing

variable {σ : Type} {r : Ranker σ} {m : Measurement} {ip : String} {entry : CacheEntry}

theorem store_eq (used : r.settings.usesCache = true) (m : Measurement) :
    ∃ history, r.store m =
      { r with history, cache := r.cache.insert m.ip (entryFor r.settings r.wall m) } := by
  unfold store
  split
  · simp only [used, if_true]
    exact ⟨_, rfl⟩
  · split <;> simp only [succeed, fail, used, if_true] <;> exact ⟨_, rfl⟩

theorem method_of_stale {wall : Int} {hit : Measurement} (stale : entry.staleAt ≤ wall)
    (serves : entry.serve ip wall = some hit) : hit.method = .stale := by
  have stale' : entry.isStale wall = true := decide_eq_true stale
  unfold CacheEntry.serve at serves
  rw [stale'] at serves
  split at serves
  · cases serves
  · cases serves
    rfl

/-- What becomes of a measurement that a ranker stores under some settings. -/
structure Stored (s : Settings) (r : Ranker σ) (m : Measurement) (entry : CacheEntry) : Prop where
  found : (r.store m).cache.find? m.ip = some entry
  lasting : Lasting s r.wall entry ↔ s.Timely
  /-- The address is served at once as it was measured, -/
  served : s.Timely → (r.store m).served m.ip =
    some { ip := m.ip, latency := entry.servedLatency, loss := m.loss, method := .cached }
  /-- but never as fresh if its time wraps. -/
  unserved : Signed.highest < s.freshSeconds → ∀ hit, (r.store m).served m.ip = some hit →
    hit.method = .stale
  /-- With more time it would expire no earlier, as long as no time wraps. -/
  longer : ∀ s' : Settings, s'.Timely → s.freshSeconds ≤ s'.freshSeconds →
    s.graceSeconds ≤ s'.graceSeconds → entry.expiresAt ≤ (entryFor s' r.wall m).expiresAt

variable {s : Settings}

theorem usesCache_normalized (used : 0 < s.freshSeconds) : s.normalized.usesCache = true :=
  decide_eq_true used

theorem entryFor_normalized (s : Settings) (wall : Int) (m : Measurement) :
    entryFor s.normalized wall m = entryFor s wall m := rfl

theorem stored_of_fits (same : r.settings = s.normalized) (fits : s.Fits) (used : 0 < s.freshSeconds)
    (shards : 0 < r.cache.shardCount) (since : 0 ≤ r.wall) (until' : r.wall < Signed.highest)
    (m : Measurement) : Stored s r m (entryFor s r.wall m) := by
  have uses : r.settings.usesCache = true := same ▸ usesCache_normalized used
  obtain ⟨history, stored⟩ := r.store_eq uses m
  have found : (r.store m).cache.find? m.ip = some (entryFor s r.wall m) := by
    rw [stored, same, entryFor_normalized]
    exact (ShardedCache.find?_insert shards m.ip m.ip _).trans (if_pos rfl)
  have uses' : (r.store m).settings.usesCache = true := by
    rw [stored]
    exact uses
  have wall : (r.store m).wall = r.wall := by
    rw [stored]
    rfl
  have lasting := lasting_iff (m := m) fits used since until'
  refine ⟨found, lasting, fun timely => ?_, fun outside hit served => ?_, fun s' timely fresh grace => ?_⟩
  · have lasts := lasting.mpr timely
    exact served_cached uses' found lasts.ordered (wall ▸ lasts.fresh)
  · have stale := staleAt_of_wrapped outside fits.freshSeconds since m
    rw [served_of_found uses' found, wall] at served
    exact method_of_stale (Int.le_of_lt stale) served
  · exact expiresAt_mono timely fresh grace r.wall m

/-- After the turn that completes a measurement its address is served as it was measured. -/
theorem served_of_completes (agree : JobsAgree r) (shards : 0 < r.cache.shardCount)
    (uses : r.settings.usesCache = true) {n : Nat} (completes : Completes r n ip)
    (lasting : Lasting s r.wall (r.entryDue n ip)) :
    ∃ hit, (r.perform .turn).served ip = some hit ∧ hit.ip = ip ∧ hit.method = .cached := by
  have found := find?_of_completes agree shards uses completes
  have uses' : (r.perform .turn).settings.usesCache = true := by
    rw [(fixed_perform r .turn).1]
    exact uses
  have wall : (r.perform .turn).wall = r.wall := by
    rw [Ranker.wall, Ranker.wall, now_of_turn (turn_perform r), clock_of_turn (turn_perform r)]
  exact ⟨_, served_cached uses' found lasting.ordered (wall ▸ lasting.fresh), rfl, rfl⟩

/-- Whatever a ranker with settings that were read stores is fresh for some time and then stale for
the time of grace, exactly if neither time of its settings is past the signed range. -/
theorem stored_of_decoded {value : Json} {settings : Settings}
    (decoded : Settings.ofJson? value = some settings) (used : 0 < settings.freshSeconds) (base : String)
    (disk : Disk) (prober : Prober σ) (memory : σ) (clock : WallClock) (acts : List (Act σ))
    (since : 0 ≤ ((make settings base disk prober memory clock).after acts).wall)
    (until' : ((make settings base disk prober memory clock).after acts).wall < 2 ^ 62) :
    let r := (make settings base disk prober memory clock).after acts
    (∀ m, ∃ entry, Stored settings r m entry) ∧
      ∀ n ip, Completes r n ip → settings.Timely →
        ∃ hit, (r.perform .turn).served ip = some hit ∧ hit.ip = ip ∧ hit.method = .cached := by
  intro r
  have fits := Settings.fits_of_ofJson? decoded
  have agree : JobsAgree r := (jobsAgree_make ..).after acts
  have shards : 0 < r.cache.shardCount := shardCount_after (jobsAgree_make ..) (shardCount_make_pos ..) acts
  have same : r.settings = settings.normalized := settings_after _ acts
  have inside : r.wall < Signed.highest := Int.lt_trans until' (by decide)
  have stored := stored_of_fits same fits used shards since inside
  refine ⟨fun m => ⟨_, stored m⟩, fun n ip completes timely => ?_⟩
  have uses : r.settings.usesCache = true := same ▸ usesCache_normalized used
  have due : r.entryDue n ip =
      entryFor settings r.wall (resultOf r.settings ip (answersOf n (r.perform .turn).journal)) := by
    rw [entryDue, same, entryFor_normalized]
  exact served_of_completes agree shards uses completes (due ▸ (stored _).lasting.mpr timely)

/-- With half a minute in the cache, which is five for the best band, and an hour of grace. -/
theorem stored_of_decoded_best :
    let settings : Settings := { freshSeconds := 30, graceSeconds := 3600 }
    let r := make settings "" .empty Scripts.prober .empty ⟨1700000000000⟩
    let m : Measurement := ⟨"10.0.0.2", 20, .zero, .tls, false⟩
    let entry : CacheEntry := ⟨20, .zero, .tls, 1700000300000, 1700003900000⟩
    (Settings.ofJson? settings.toJson = some settings ∧ 0 < settings.freshSeconds ∧ 0 ≤ r.wall ∧
      r.wall < 2 ^ 62) ∧
      (r.store m).cache.find? "10.0.0.2" = some entry ∧ Lasting settings r.wall entry ∧
      (r.store m).served "10.0.0.2" = some ⟨"10.0.0.2", 120, .zero, .cached, false⟩ := by
  intro settings r m entry
  have fits : settings.Fits := { Settings.fits_usual with
    freshSeconds := by decide
    graceSeconds := by decide }
  have timely : settings.Timely := ⟨by decide, by decide⟩
  have decoded := Settings.ofJson?_toJson fits
  have found : (r.store m).cache.find? "10.0.0.2" = some entry := by
    dsimp only [r, settings]
    decide +kernel
  obtain ⟨all, -⟩ := stored_of_decoded decoded (by decide) "" .empty Scripts.prober .empty
    ⟨1700000000000⟩ [] (by decide) (by decide)
  obtain ⟨entry', stored⟩ := all m
  cases stored.found.symm.trans found
  exact ⟨⟨decoded, by decide, by decide, by decide⟩, found, stored.lasting.mpr timely,
    stored.served timely⟩

/-- With a second of grace more than fit, what is stored expired long ago, and the address is not
served; with that second less it never expires. -/
theorem stored_expired :
    let settings : Settings := { graceSeconds := 2 ^ 63 }
    let r := make settings "" .empty Scripts.prober .empty ⟨1700000000000⟩
    let m : Measurement := ⟨"10.0.0.2", 20, .zero, .tls, false⟩
    (Settings.ofJson? settings.toJson = some settings ∧ 0 < settings.freshSeconds ∧ 0 ≤ r.wall ∧
      r.wall < 2 ^ 62) ∧
      (∃ entry, (r.store m).cache.find? m.ip = some entry ∧ ¬Lasting settings r.wall entry ∧
        entry.expiresAt < r.wall ∧ (r.store m).served m.ip = none) ∧
      (entryFor { graceSeconds := 2 ^ 63 - 1 } r.wall m).expiresAt = Signed.highest := by
  intro settings r m
  have fits : settings.Fits := { Settings.fits_usual with graceSeconds := by decide }
  refine ⟨⟨Settings.ofJson?_toJson fits, by decide, by decide, by decide⟩, ?_, by decide +kernel⟩
  refine ⟨⟨20, .zero, .tls, -9223370336851775808, -9223370336851775808⟩, ?_, ?_, by decide, ?_⟩
  · dsimp only [r, settings]
    decide +kernel
  · exact fun lasting => absurd lasting.fresh (by decide)
  · dsimp only [r, settings]
    decide +kernel

end Storing

end Ranker

end LatencyRank
