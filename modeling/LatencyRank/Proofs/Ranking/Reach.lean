import Mathlib
import LatencyRank.Proofs.Ranking.Serving

/-!
Reached addresses stand before unreached ones. With samples that are short against the latency of the
unreachable, the worst score of an address that answered once is below the best of one that never did,
measured or served; and which of the reached ones are served makes no difference to their order.
-/

namespace LatencyRank

namespace Ranking

section Scores

/-- With samples up to a bound no reached address can score as badly as an unreached one. -/
def Room (s : Settings) (bound : Int) : Prop :=
  bound + 150 * (s.attempts - 1) + 550 * s.failureCap + 500 < deadLatency

instance (s : Settings) (bound : Int) : Decidable (Room s bound) := inferInstanceAs (Decidable (_ < _))

variable {s : Settings} {now bound weight : Int} {m : Measurement}

theorem score_of_fair (fair : m.Fair bound) (small : bound < deadLatency) (least : 0 ≤ weight) :
    m.score weight ≤ bound + 3500 + weight := by
  have latency := fair.latency
  have loss := Measurement.lossScore_bounds fair.positive fair.loss
  have penalty : m.method.penalty ≤ 500 := by
    have all : ∀ method ∈ Method.probing, method.penalty ≤ 500 := by decide
    exact all _ fair.method
  simp only [Measurement.score, Signed.add, Signed.clamp, Signed.lowest, Signed.highest, deadLatency] at *
  omega

theorem score_of_givenUp {ip : String} (shows' : Shows s now (.givenUp ip) m) (least : 0 ≤ weight) :
    deadLatency + 3000 ≤ m.score weight := by
  have loss : m.loss = Measurement.totalLoss := by
    cases shows' with
    | fresh => rfl
    | served stored serves => exact (hit_of_serves serves).2.1
  have latency : m.latency = deadLatency := by
    cases shows' with
    | fresh => rfl
    | served stored serves => exact (hit_of_serves serves).2.2.2
  have penalty := penalty_nonneg m.method
  simp only [Measurement.score, loss, latency, Measurement.lossScore_total, Signed.add, Signed.clamp,
    Signed.lowest, Signed.highest, deadLatency] at *
  omega

end Scores

section Reach

/-- The measurements of a ranking: of each address its latest one, or what the cache serves of it. -/
def Shown (s : Settings) (now : Int) (latest : String → List (Option Sample))
    (results : List Measurement) : Prop :=
  ∀ m ∈ results, Shows s now (Ranker.resultOf s m.ip (latest m.ip)) m

theorem attemptCount_normalized (settings : Settings) :
    settings.normalized.attemptCount = settings.normalized.attempts ∧
      max settings.normalized.failureCap 1 = settings.normalized.failureCap := by
  simp only [Settings.attemptCount, Settings.normalized, Settings.orUsual]
  constructor <;> split <;> omega

variable {settings : Settings} {bound : Int} {window : Int} {book : HistoryBook} {now : Int}
  {latest : String → List (Option Sample)} {results : List Measurement} {m : Measurement}

theorem fair_latest (fair : ∀ ip sample, some sample ∈ latest ip → sample.Fair bound) {ip : String}
    (first : reached settings.normalized ip (latest ip) = true) :
    (Ranker.resultOf settings.normalized ip (latest ip)).Fair
      (bound + 150 * (settings.normalized.attempts - 1)) := by
  have bounded := fair_of_reached (fair ip) first
  rwa [(attemptCount_normalized settings).1, lostAttemptPenalty] at bounded

theorem score_of_reached (room : Room settings.normalized bound)
    (fair : ∀ ip sample, some sample ∈ latest ip → sample.Fair bound)
    (shown : Shown settings.normalized now latest results) (member : m ∈ results)
    (first : reached settings.normalized m.ip (latest m.ip) = true) (weight : Int) :
    m.score weight =
      (Ranker.resultOf settings.normalized m.ip (latest m.ip)).score weight := by
  have bounded := fair_latest fair first
  have latency := bounded.latency
  unfold Room at room
  refine score_of_shown (shown m member) ⟨⟨latest m.ip, ?_⟩, ?_⟩ (by omega) weight
  · rw [Ranker.resultOf, ip_measure]
    rfl
  · simp only [Signed.InRange, Signed.lowest, Signed.highest, deadLatency] at *
    omega

/-- Between a reached and an unreached address the scores leave no doubt. -/
theorem score_lt (room : Room settings.normalized bound)
    (fromEmpty : HistoryBook.FromEmpty window settings.normalized.failureCap book)
    (fair : ∀ ip sample, some sample ∈ latest ip → sample.Fair bound)
    (shown : Shown settings.normalized now latest results) {m' : Measurement} (member : m ∈ results)
    (member' : m' ∈ results) (first : reached settings.normalized m.ip (latest m.ip) = true)
    (lost : reached settings.normalized m'.ip (latest m'.ip) = false) :
    m.score (book.weight m.ip now) < m'.score (book.weight m'.ip now) := by
  have bounded := fair_latest fair first
  have score := score_of_reached room fair shown member first (book.weight m.ip now)
  have shows' := shown m' member'
  rw [result_of_unreached lost] at shows'
  have latency := bounded.latency
  unfold Room at room
  have cap := (attemptCount_normalized settings).2
  have few : 550 * max settings.normalized.failureCap 1 < 2 ^ 53 := by
    simp only [deadLatency] at room
    omega
  have weight := HistoryBook.weight_of_fromEmpty fromEmpty few m.ip now
  have weight' := HistoryBook.weight_of_fromEmpty fromEmpty few m'.ip now
  rw [cap] at weight weight'
  have worst := score_of_fair bounded (by omega) weight.1
  have best := score_of_givenUp shows' weight'.1
  simp only [deadLatency] at *
  omega

theorem standings_of_reached (room : Room settings.normalized bound)
    (fair : ∀ ip sample, some sample ∈ latest ip → sample.Fair bound)
    (shown : Shown settings.normalized now latest results) :
    (results.filter fun m => reached settings.normalized m.ip (latest m.ip)).map (standing book now) =
      ((results.map Measurement.ip).filter fun ip => reached settings.normalized ip (latest ip)).map
        fun ip => ((Ranker.resultOf settings.normalized ip (latest ip)).score (book.weight ip now), ip) := by
  rw [List.filter_map, List.map_map]
  refine List.map_congr_left fun m member => ?_
  obtain ⟨member, first⟩ := List.mem_filter.mp member
  rw [standing, score_of_reached room fair shown member first]
  rfl

/-- A ranking has every result once. Whatever it has from the cache, every reached address stands before
every unreached one, and the reached ones stand in the same order as with anything else from the cache.
With the usual settings there is room for samples up to some 944 seconds. -/
theorem reached_first (settings : Settings) (bound : Int) (room : Room settings.normalized bound)
    (window : Int) (book : HistoryBook)
    (fromEmpty : HistoryBook.FromEmpty window settings.normalized.failureCap book) (now : Int)
    (latest : String → List (Option Sample))
    (fair : ∀ ip sample, some sample ∈ latest ip → sample.Fair bound) (results : List Measurement)
    (shown : Shown settings.normalized now latest results) :
    let reached' (ip : String) := reached settings.normalized ip (latest ip)
    let order (results : List Measurement) := (rank results book now).map Measurement.ip
    (rank results book now).Perm results ∧
      (order results).Pairwise (fun ip later => reached' ip = false → reached' later = false) ∧
      (∀ results', Shown settings.normalized now latest results' →
        (results'.map Measurement.ip).Perm (results.map Measurement.ip) →
        (order results').filter reached' = (order results).filter reached') ∧
      ∀ usual : Int, usual < 944199 → Room ({} : Settings).normalized usual := by
  intro reached' order
  refine ⟨rank_perm results book now, ?_, ?_, ?_⟩
  · refine List.pairwise_map.mpr ((rank_ordered results book now).imp_of_mem ?_)
    intro m later first second before lost
    by_contra found
    have member := (rank_perm results book now).mem_iff.mp first
    have member' := (rank_perm results book now).mem_iff.mp second
    have less := score_lt room fromEmpty fair shown member' member (by simpa using found) lost
    rcases before with less' | ⟨same, -⟩ <;> omega
  · intro results' shown' same
    refine rank_agrees strictMono_id reached' ?_
    refine List.Perm.trans (List.Perm.of_eq (standings_of_reached room fair shown')) ?_
    rw [standings_of_reached room fair shown]
    exact (same.filter _).map _
  · intro usual small
    have attempts : ({} : Settings).normalized.attempts = 3 := rfl
    have cap : ({} : Settings).normalized.failureCap = 100 := rfl
    rw [Room, attempts, cap, deadLatency]
    omega

/-- A lost address that the cache answers does not pass a reached one that failed often. -/
theorem reached_first_of_mixed :
    let latest (ip : String) : List (Option Sample) :=
      if ip = "10.0.0.1" then [some ⟨90, .udp53⟩, none, some ⟨100, .udp53⟩] else [none]
    let fresh (ip : String) := Ranker.resultOf {} ip (latest ip)
    let hit : Measurement := { Measurement.dead "10.0.0.2" with method := .stale }
    let book := (HistoryBook.inMemory 604800000 100).note (.fastFailed "10.0.0.1" 1000)
    (Ranker.entryFor {} 1000 (fresh "10.0.0.2")).serve "10.0.0.2" 30000 = some hit ∧
      reached {} "10.0.0.1" (latest "10.0.0.1") = true ∧ reached {} "10.0.0.2" (latest "10.0.0.2") = false ∧
      (rank [hit, fresh "10.0.0.1"] book 30000).map Measurement.ip = ["10.0.0.1", "10.0.0.2"] := by
  intro latest fresh hit book
  have serves : (Ranker.entryFor {} 1000 (fresh "10.0.0.2")).serve "10.0.0.2" 30000 = some hit := by
    decide +kernel
  have fair (ip : String) (sample : Sample) (member : some sample ∈ latest ip) : sample.Fair 100 := by
    by_cases here : ip = "10.0.0.1"
    · simp only [latest, here, if_true, List.mem_cons, Option.some.injEq, reduceCtorEq,
        List.not_mem_nil, false_or, or_false] at member
      rcases member with rfl | rfl <;> exact ⟨by decide, by decide⟩
    · simp [latest, here] at member
  have shown : Shown {} 30000 latest [hit, fresh "10.0.0.1"] :=
    List.forall_mem_cons.mpr ⟨.served 1000 serves, List.forall_mem_singleton.mpr .fresh⟩
  have first : reached {} "10.0.0.1" (latest "10.0.0.1") = true := by decide
  have lost : reached {} "10.0.0.2" (latest "10.0.0.2") = false := by decide
  obtain ⟨perm, before, -⟩ := reached_first {} 100 (by decide) 604800000 book (.noted .opened _) 30000
    latest fair [hit, fresh "10.0.0.1"] shown
  refine ⟨serves, first, lost, ?_⟩
  -- of the two orders of two addresses one has the lost address first
  have ips : ((rank [hit, fresh "10.0.0.1"] book 30000).map Measurement.ip).Perm
      ["10.0.0.2", "10.0.0.1"] := perm.map Measurement.ip
  dsimp only at before
  generalize (rank [hit, fresh "10.0.0.1"] book 30000).map Measurement.ip = order at ips before
  have orders : order = ["10.0.0.2", "10.0.0.1"] ∨ order = ["10.0.0.1", "10.0.0.2"] := by
    simpa [List.permutations, List.permutationsAux_cons] using List.mem_permutations.mpr ips
  refine orders.resolve_left fun turned => ?_
  subst turned
  have unreached : reached {} "10.0.0.1" (latest "10.0.0.1") = false :=
    List.rel_of_pairwise_cons before List.mem_cons_self lost
  rw [first] at unreached
  cases unreached

end Reach

end Ranking

end LatencyRank
