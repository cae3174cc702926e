import Mathlib
import LatencyRank.Probe.Script
import LatencyRank.Proofs.Cache.Rounds
import LatencyRank.Proofs.Measurement.Bounds
import LatencyRank.Proofs.Ranker.Accounts
import LatencyRank.Proofs.Ranker.Exactness
import LatencyRank.Proofs.Ranker.Revalidation
import LatencyRank.Proofs.Settings.Document

/-!
What can go wrong in a ranking. Whatever settings are read and whatever happens to the cache meanwhile,
the sums and products of a ranker stay in the signed range, its divisors are not zero, and it looks
beyond the end of no list. Only the permits of a ranking have no upper bound: settings that are read may
ask for more than there can be, and a ranking that needs them breaks down.
-/

namespace LatencyRank

/-- The samples of a prober lie between zero and `2 ^ 30`. -/
def Prober.Moderate {σ : Type} (prober : Prober σ) : Prop :=
  ∀ sample, prober.Reports (some sample) → 0 ≤ sample.latency ∧ sample.latency ≤ 2 ^ 30

section Reckoning

/-- What a measurement reckons with when it is concluded: whichever of the latencies are added up, the
sum is in the signed range, as are the penalty and the result; and a mean is taken of something. -/
structure Progress.Reckons (p : Progress) : Prop where
  few : p.latencies.length ≤ p.made
  sums : ∀ k, Signed.InRange ((p.latencies.take k).foldl (· + ·) 0)
  penalty : Signed.InRange ((p.made - p.latencies.length : Nat) * lostAttemptPenalty)
  result : ∀ (strategy : Strategy) base, strategy.combine p.latencies = some base →
    p.latencies.length ≠ 0 ∧
      Signed.InRange (base + (p.made - p.latencies.length : Nat) * lostAttemptPenalty)

variable {p : Progress} {answers : List (Option Sample)}

theorem Progress.reckons (taken : ({} : Progress).takeAll answers = some p)
    (few : answers.length ≤ Unsigned.greatest32)
    (moderate : ∀ sample, some sample ∈ answers → 0 ≤ sample.latency ∧ sample.latency ≤ 2 ^ 30) :
    p.Reckons := by
  obtain ⟨made, latencies⟩ := counted taken
  rw [Nat.zero_add] at made
  rw [List.nil_append] at latencies
  have inside : ∀ x ∈ p.latencies, 0 ≤ x ∧ x ≤ 2 ^ 30 := by
    intro x member
    rw [latencies] at member
    obtain ⟨answer, member', same⟩ := List.mem_filterMap.mp member
    obtain ⟨sample, rfl, rfl⟩ := Option.map_eq_some_iff.mp same
    exact moderate sample member'
  have parts := length_latencies answers
  rw [← latencies] at parts
  simp only [Unsigned.greatest32] at few
  refine ⟨by omega, fun k => ?_, ?_, fun strategy base combined => ⟨?_, ?_⟩⟩
  · -- so many latencies of up to 2 ^ 30 come to less than 2 ^ 62
    have initial : ∀ x ∈ p.latencies.take k, 0 ≤ x ∧ x ≤ 2 ^ 30 := fun x member =>
      inside x (List.mem_of_mem_take member)
    obtain ⟨least, most⟩ := foldl_add_bounds initial 0
    have shorter := List.length_take_le' k p.latencies
    simp only [Signed.InRange, Signed.lowest, Signed.highest]
    omega
  · simp only [Signed.InRange, Signed.lowest, Signed.highest, lostAttemptPenalty]
    omega
  · intro none'
    rw [List.length_eq_zero_iff.mp none', combine_eq_none.mpr rfl] at combined
    cases combined
  · obtain ⟨least, most⟩ := combine_bounds inside combined
    simp only [Signed.InRange, Signed.lowest, Signed.highest, lostAttemptPenalty]
    omega

/-- Each factor of the window in turn leaves the product in the signed range. -/
theorem Settings.window_inRange {s : Settings} (fits : s.Fits) {factor : Int} (positive : 0 ≤ factor)
    (most : factor ≤ 24 * 60 * 60 * 1000) : Signed.InRange (s.decayDays * factor) := by
  have days : (s.decayDays : Int) ≤ 2 ^ 32 := by
    have word := fits.decayDays
    simp only [Unsigned.greatest32] at word
    omega
  have product : s.decayDays * factor ≤ 2 ^ 32 * (24 * 60 * 60 * 1000) :=
    mul_le_mul days most positive (by decide)
  have sign : 0 ≤ s.decayDays * factor := mul_nonneg (Int.natCast_nonneg _) positive
  simp only [Signed.InRange, Signed.lowest, Signed.highest]
  omega

end Reckoning

namespace Ranker

variable {σ : Type}

theorem rankLimit_le (s : Settings) (candidates : Nat) : rankLimit s candidates ≤ candidates := by
  unfold rankLimit
  split
  · exact Nat.le_refl _
  · exact Nat.min_le_right _ _

section Breaking

variable {r : Ranker σ} {agenda : Agenda Task} {c : Nat} {call call' : RankingCall}

theorem unbroken_dispatch (known : r.rankings[c]? = some call') (misses : List String)
    (call : RankingCall) :
    ((dispatch c misses r call).rankings[c]?).map RankingCall.stage ≠ some .broken := by
  have inside := (List.getElem?_eq_some_iff.mp known).1
  have kept (domain : String) (ips : List String) :
      (spawnAll domain (.ranking c) ips r).rankings = r.rankings :=
    (enlists_spawnAll domain (.ranking c) ips r).rankings
  rcases dispatch_cases c misses r call with ⟨-, shape⟩ | ⟨-, -, shape⟩ | ⟨-, -, -, shape⟩
  · simp [shape, conclude, note, setRanking, inside]
  · simp [shape, setRanking, starting, kept, inside]
  · simp [shape, setRanking, starting, kept, inside]

/-- With its first turn a ranking breaks exactly if the cache leaves it something to measure and it asks
for more permits than there can be. -/
theorem broken_iff (popped : r.agenda.pop? = some (.ranking c, agenda))
    (known : r.rankings[c]? = some call) (stage : call.stage = .expected) :
    ((r.perform .turn).rankings[c]?).map RankingCall.stage = some .broken ↔
      missesOf r call.candidates ≠ [] ∧ permitLimit < call.permits := by
  have turned : r.perform .turn = resumeRanking { r with agenda } c := perform_of_pop popped
  have misses : missesOf { r with agenda } call.candidates = missesOf r call.candidates := by
    unfold missesOf
    rw [served_of_now (Agenda.pop?_eq_some popped).2.2]
  obtain ⟨recruits, enlists, -⟩ := enlists_refreshAll call.domain
    ((chosen r.settings call.candidates).filter (servesStale { r with agenda })) { r with agenda }
  -- looking the candidates up starts refreshes and leaves the rankings as they are
  have known' := enlists.rankings ▸ known
  have inside := (List.getElem?_eq_some_iff.mp known').1
  rw [turned, ← misses]
  unfold resumeRanking
  rw [show ({ r with agenda } : Ranker σ).rankings[c]? = some call from known]
  simp only [stage, begin, partition_eq]
  change _ ↔ missesOf { r with agenda } call.candidates ≠ [] ∧ _
  split
  · rename_i breaks
    exact iff_of_true (by simp [setRanking, inside]) breaks
  · rename_i goesOn
    exact iff_of_false (unbroken_dispatch known' _ _) goesOn

end Breaking

section Happenings

/-- What can happen to a ranker: an act, or something that is asked of its cache from outside. -/
inductive Happening (σ : Type) where
  | act (act : Act σ)
  | cache (request : CacheRequest)

def undergo (r : Ranker σ) : Happening σ → Ranker σ
  | .act act => r.perform act
  | .cache request => { r with cache := (r.cache.respond request).1 }

def undergone (r : Ranker σ) (happenings : List (Happening σ)) : Ranker σ := happenings.foldl undergo r

/-- What no operation leaves its range from: such settings, samples within bounds, jobs that agree with
their answers, permits that are kept, and a shard for every address. -/
structure SafetyInvariant (s : Settings) (r : Ranker σ) : Prop where
  settings : r.settings = s
  moderate : r.prober.Moderate
  agree : JobsAgree r
  restrained : Restrained r
  shards : 0 < r.cache.shardCount

variable {s : Settings} {r : Ranker σ}

theorem SafetyInvariant.perform (safe : SafetyInvariant s r) (act : Act σ) :
    SafetyInvariant s (r.perform act) where
  settings := (fixed_perform r act).1.trans safe.settings
  moderate := (fixed_perform r act).2 ▸ safe.moderate
  agree := safe.agree.perform act
  restrained := safe.restrained.perform act
  shards := shardCount_after safe.agree safe.shards [act]

theorem SafetyInvariant.withCache (safe : SafetyInvariant s r) {cache : ShardedCache}
    (some' : 0 < cache.shardCount) :
    SafetyInvariant s { r with cache } where
  settings := safe.settings
  moderate := safe.moderate
  agree := ⟨safe.agree.boarded, safe.agree.attends⟩
  restrained := by
    obtain ⟨⟨boarded, crewed, strange⟩, permitted⟩ := safe.restrained
    refine ⟨⟨boarded, fun c call known => ?_, strange⟩, fun c call known => ?_⟩
    · obtain ⟨fresh, expected, calledOff, broken⟩ := crewed c call known
      exact ⟨fresh, expected, calledOff, broken⟩
    · obtain ⟨running, permits, pausing, joining, finished⟩ := permitted c call known
      exact ⟨running, permits, pausing, joining, finished⟩
  shards := some'

theorem SafetyInvariant.undergone (safe : SafetyInvariant s r) (happenings : List (Happening σ)) :
    SafetyInvariant s (r.undergone happenings) := by
  unfold Ranker.undergone
  induction happenings generalizing r with
  | nil => exact safe
  | cons happening rest ih =>
    refine ih ?_
    cases happening with
    | act act => exact safe.perform act
    | cache request =>
      exact safe.withCache ((ShardedCache.shardCount_respond r.cache request).symm ▸ safe.shards)

theorem safetyInvariant_make (settings : Settings) (base : String) (disk : Disk) {prober : Prober σ}
    (moderate : prober.Moderate) (memory : σ) (clock : WallClock) :
    SafetyInvariant settings.normalized (make settings base disk prober memory clock) where
  settings := rfl
  moderate := moderate
  agree := jobsAgree_make ..
  restrained := restrained_make ..
  shards := shardCount_make_pos ..

theorem SafetyInvariant.length_answers_le (safe : SafetyInvariant s r) {n : Nat} {p : Progress}
    (taken : ({} : Progress).takeAll (answersOf n r.journal) = some p) :
    (answersOf n r.journal).length ≤ s.attemptCount := by
  cases known : r.jobs[n]? with
  | none =>
    rw [safe.agree.attends.unborn n (List.getElem?_eq_none_iff.mp known)]
    exact Nat.zero_le _
  | some job =>
    have attended := safe.agree.attends.attended n job known
    rw [safe.settings] at attended
    cases stage : job.stage with
    | attempting left progress sample =>
      rw [stage] at attended
      have counted := attended.2.1
      omega
    | done outcome =>
      -- it was told its outcome, or it has had all its answers
      rw [stage] at attended
      rcases attended with nothing | ⟨lost | all, -⟩
      · rw [nothing]
        exact Nat.zero_le _
      · exact absurd lost (Progress.began_of_taken taken)
      · exact Nat.le_of_eq all
    | _ =>
      rw [stage] at attended
      have nothing : answersOf n r.journal = [] := attended
      rw [nothing]
      exact Nat.zero_le _

end Happenings

section Safety

/-- Nothing that a ranker with such settings does is out of its range, but for the permits that a
ranking asks for. -/
structure Unfailing (s : Settings) (r : Ranker σ) : Prop where
  /-- A ranking asks for one permit at least, -/
  permits : ∀ (c : Nat) (call : RankingCall), r.rankings[c]? = some call → call.stage = .expected →
    call.permits = s.concurrency ∧ 1 ≤ call.permits
  /-- and it breaks exactly if it needs them and asks for more than there can be. -/
  breaks : ∀ (c : Nat) (call : RankingCall) (agenda : Agenda Task),
    r.agenda.pop? = some (.ranking c, agenda) →
    r.rankings[c]? = some call → call.stage = .expected →
      (((r.perform .turn).rankings[c]?).map RankingCall.stage = some .broken ↔
        missesOf r call.candidates ≠ [] ∧ permitLimit < s.concurrency)
  /-- With settings that ask for no more none is broken, and left alone they all return. -/
  returns : s.concurrency ≤ permitLimit →
    (∀ (c : Nat) (call : RankingCall), r.rankings[c]? = some call → call.stage ≠ .broken) ∧
      ∃ steps, ∀ (c : Nat) call, (r.after (alone steps r)).rankings[c]? = some call →
        ∃ results time, call.stage = .returned results time
  choice : ∀ candidates, chosen s candidates = candidates.take (rankLimit s candidates.length) ∧
    rankLimit s candidates.length ≤ candidates.length
  reckons : ∀ n p, ({} : Progress).takeAll (answersOf n r.journal) = some p → p.Reckons
  window : Signed.InRange s.decayWindow ∧
    ∀ factor ∈ [24, 24 * 60, 24 * 60 * 60], Signed.InRange (s.decayDays * factor)
  shard : ∀ ip, r.cache.shardIndex ip < r.cache.shardCount
  budget : 1 ≤ r.cache.shardCount ∧ ∀ wish,
    1 ≤ r.cache.budgetFor wish ∧ r.cache.budgetFor wish ≤ r.cache.shardCount ∧
      ∀ index ∈ r.cache.visited (r.cache.budgetFor wish), index < r.cache.shardCount

variable {s : Settings} {r : Ranker σ}

theorem SafetyInvariant.permits_eq (safe : SafetyInvariant s r) (positive : 1 ≤ s.concurrency) {c : Nat}
    {call : RankingCall} (known : r.rankings[c]? = some call) (stage : call.stage = .expected) :
    call.permits = s.concurrency := by
  have permits := ((safe.restrained.crews.mustered.crewed c call known).expected stage).2.1
  rw [safe.settings] at permits
  omega

theorem SafetyInvariant.limit_of_broken (safe : SafetyInvariant s r) (positive : 1 ≤ s.concurrency) {c : Nat}
    {call : RankingCall} (known : r.rankings[c]? = some call) (stage : call.stage = .broken) :
    permitLimit < s.concurrency := by
  have many := ((safe.restrained.crews.mustered.crewed c call known).broken stage).2
  rw [safe.settings] at many
  omega

theorem SafetyInvariant.returns (safe : SafetyInvariant s r) (positive : 1 ≤ s.concurrency)
    (limited : s.concurrency ≤ permitLimit) :
    ∃ steps, ∀ (c : Nat) call, (r.after (alone steps r)).rankings[c]? = some call →
      ∃ results time, call.stage = .returned results time := by
  obtain ⟨steps, quiet⟩ := quiet_eventually r safe.agree.boarded
  refine ⟨steps, fun c call known => ?_⟩
  have later : SafetyInvariant s (r.after (alone steps r)) :=
    after_induction (fun _ act safe => safe.perform act) safe (alone steps r)
  obtain ⟨time, ⟨results, stage⟩ | ⟨stage, -⟩⟩ := endsAt_of_over later.restrained.crews known
    (later.restrained.over_of_quiet quiet known)
  · exact ⟨results, time, stage⟩
  · exact absurd (later.limit_of_broken positive known stage) (Nat.not_lt.mpr limited)

theorem SafetyInvariant.reckons (safe : SafetyInvariant s r) (fits : s.Fits) {n : Nat} {p : Progress}
    (taken : ({} : Progress).takeAll (answersOf n r.journal) = some p) : p.Reckons := by
  have word : s.attemptCount ≤ Unsigned.greatest32 := max_le fits.attempts (by decide)
  refine Progress.reckons taken ((safe.length_answers_le taken).trans word) fun sample member => ?_
  exact safe.moderate sample (safe.agree.attends.reported n _ member)

theorem SafetyInvariant.unfailing (safe : SafetyInvariant s r) (fits : s.Fits)
    (positive : 1 ≤ s.concurrency) :
    Unfailing s r where
  permits := by
    intro c call known stage
    have permits := safe.permits_eq positive known stage
    exact ⟨permits, permits ▸ positive⟩
  breaks := by
    intro c call agenda popped known stage
    rw [broken_iff popped known stage, safe.permits_eq positive known stage]
  returns := by
    intro limited
    refine ⟨fun c call known broken => ?_, safe.returns positive limited⟩
    exact absurd (safe.limit_of_broken positive known broken) (Nat.not_lt.mpr limited)
  choice := fun candidates => ⟨chosen_eq_take s candidates, rankLimit_le s _⟩
  reckons := fun n p => safe.reckons fits
  window := by
    refine ⟨Settings.window_inRange fits (by decide) (Int.le_refl _), fun factor member => ?_⟩
    simp only [List.mem_cons, List.not_mem_nil, or_false] at member
    exact Settings.window_inRange fits (by omega) (by omega)
  shard := ShardedCache.shardIndex_lt safe.shards
  budget := by
    have shards := safe.shards
    refine ⟨shards, fun wish => ⟨?_, Nat.min_le_right _ _, fun index member => ?_⟩⟩
    · unfold ShardedCache.budgetFor
      omega
    · obtain ⟨offset, -, rfl⟩ := List.mem_map.mp member
      exact Nat.mod_lt _ shards

/-- Whatever settings are read and whatever happens to a ranker with them, nothing that it does is out
of its range but the permits of its rankings; and those are only if the settings ask for more than there
can be. -/
theorem unfailing_of_decoded {value : Json} {settings : Settings}
    (decoded : Settings.ofJson? value = some settings) {prober : Prober σ} (moderate : prober.Moderate)
    (base : String) (disk : Disk) (memory : σ) (clock : WallClock) (happenings : List (Happening σ)) :
    Unfailing settings.normalized
      ((make settings base disk prober memory clock).undergone happenings) :=
  ((safetyInvariant_make settings base disk moderate memory clock).undergone happenings).unfailing
    (Settings.fits_of_ofJson? decoded).normalized (Settings.orUsual_pos (by decide))

/-- With as many permits as there can be a ranking of one address twice returns; its job has a sample of
the greatest latency and a lost attempt, and a partial cleanup goes on between. -/
theorem unfailing_of_decoded_at_limit :
    let value : Json := .object [("concurrency", .nat 2305843009213693951), ("count", .nat 2)]
    let settings : Settings := { concurrency := 2305843009213693951, attempts := 2 }
    let prober : Prober Nat :=
      { ask := fun _ _ asked => (⟨0, if asked = 0 then some ⟨2 ^ 30, .tls⟩ else none⟩, asked + 1) }
    let r := (make settings "" .empty prober 0 ⟨0⟩).undergone
      [.act (.request ["10.0.0.2", "10.0.0.2"] "example" 0 none), .act .turn,
        .cache (.cleanupPartial 0 5), .act .turn]
    Settings.ofJson? value = some settings ∧ prober.Moderate ∧
      (∃ p, ({} : Progress).takeAll (answersOf 0 r.journal) = some p ∧ p.latencies = [2 ^ 30] ∧
        p.made = 2 ∧ p.Reckons) ∧
      ∃ steps, ∀ (c : Nat) (call : RankingCall), (r.after (alone steps r)).rankings[c]? = some call →
        ∃ results time, call.stage = .returned results time := by
  intro value settings prober r
  have decoded : Settings.ofJson? value = some settings := by
    dsimp only [value, settings]
    decide +kernel
  have moderate : prober.Moderate := by
    rintro sample ⟨ip, domain, asked, answers⟩
    dsimp only [prober] at answers
    split at answers
    · cases answers
      decide
    · cases answers
  have safe := unfailing_of_decoded decoded moderate "" .empty 0 ⟨0⟩
    [.act (.request ["10.0.0.2", "10.0.0.2"] "example" 0 none), .act .turn,
      .cache (.cleanupPartial 0 5), .act .turn]
  have taken : ({} : Progress).takeAll (answersOf 0 r.journal) = some ⟨2, [2 ^ 30], some .tls⟩ := by
    dsimp only [r, prober, settings]
    decide +kernel
  exact ⟨decoded, moderate, ⟨_, taken, rfl, rfl, safe.reckons 0 _ taken⟩, (safe.returns (by decide)).2⟩

/-- With one permit more the same settings are read, and a ranking that has something to measure breaks
down. -/
theorem broken_of_decoded :
    let value : Json := .object [("concurrency", .nat 2305843009213693952)]
    let settings : Settings := { concurrency := 2305843009213693952 }
    let scripts := Scripts.direct .empty "10.0.0.2" { usual := some ⟨0, some ⟨20, .tls⟩⟩ }
    let r := (make settings "" .empty Scripts.prober scripts ⟨1700000000000⟩).undergone
      [.act (.request ["10.0.0.2"] "example" 0 none), .act .turn]
    Settings.ofJson? value = some settings ∧ settings.normalized.concurrency = permitLimit + 1 ∧
      r.rankings.map RankingCall.stage = [.broken] := by
  decide +kernel

end Safety

end Ranker

end LatencyRank
