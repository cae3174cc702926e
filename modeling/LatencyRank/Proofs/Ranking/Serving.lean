import Mathlib
import LatencyRank.Ranker.Step
import LatencyRank.Proofs.History.Weight
import LatencyRank.Proofs.Measurement.Bounds
import LatencyRank.Proofs.Ranking.Order

/-!
Rankings that the cache answers in part. A cached measurement has the penalty of its method in its
latency, so it scores as the fresh one; only the latency that stands for an unreachable address is
served as it is, and such an address comes to stand better than it would if it were measured again.
-/

namespace LatencyRank

namespace Ranking

section Served

/-- A measurement as a ranking has it: itself, or as the cache serves the entry stored for it. -/
inductive Shows (s : Settings) (now : Int) (m : Measurement) : Measurement → Prop where
  | fresh : Shows s now m m
  | served {hit : Measurement} (stored : Int)
      (serves : (Ranker.entryFor s stored m).serve m.ip now = some hit) : Shows s now m hit

variable {s : Settings} {stored now : Int} {m hit : Measurement}

theorem hit_of_serves (serves : (Ranker.entryFor s stored m).serve m.ip now = some hit) :
    hit.ip = m.ip ∧ hit.loss = m.loss ∧ hit.method.penalty = 0 ∧
      hit.latency = if deadLatency ≤ m.latency then m.latency
        else Signed.add m.latency m.method.penalty := by
  unfold CacheEntry.serve at serves
  split at serves
  · cases serves
  · cases serves
    refine ⟨rfl, rfl, ?_, rfl⟩
    dsimp only
    split <;> rfl

theorem ip_of_shows {m' : Measurement} (shows' : Shows s now m m') : m'.ip = m.ip := by
  cases shows' with
  | fresh => rfl
  | served stored serves => exact (hit_of_serves serves).1

theorem penalty_nonneg (method : Method) : 0 ≤ method.penalty := by
  cases method <;> decide

/-- Below the latency of the unreachable a served measurement scores as the fresh one. -/
theorem score_of_served (serves : (Ranker.entryFor s stored m).serve m.ip now = some hit)
    (inside : Signed.InRange m.latency) (positive : m.loss.negative = false)
    (alive : m.latency < deadLatency) (weight : Int) : hit.score weight = m.score weight := by
  obtain ⟨-, loss, penalty, latency⟩ := hit_of_serves serves
  rw [if_neg (Int.not_le.mpr alive)] at latency
  have least := penalty_nonneg m.method
  have loss' : 0 ≤ (m.loss.mul Measurement.lossFactor).round :=
    Binary64.round_nonneg (Binary64.negative_mul positive (Binary64.negative_ofInt 30))
  rw [Measurement.score, Measurement.score, loss, penalty, latency]
  -- both sums run up to the end of the range only, and from below it in any order
  congr 1
  simp only [Signed.InRange, Signed.lowest, Signed.highest, Signed.add, Signed.clamp] at *
  omega

end Served

section Order

variable {s : Settings} {book : HistoryBook} {now : Int} {results : List Measurement}
  {shown : Measurement → Measurement}

/-- A group of measurements keeps its order if each is shown with its score, or all scores are shifted
alike. -/
theorem order_of_shown {shift : Int → Int} (mono : StrictMono shift) (keep : String → Bool)
    (shows' : ∀ m ∈ results, Shows s now m (shown m))
    (scores : ∀ m ∈ results, keep m.ip = true →
      (shown m).score (book.weight m.ip now) = shift (m.score (book.weight m.ip now))) :
    ((rank results book now).map Measurement.ip).filter keep =
      ((rank (results.map shown) book now).map Measurement.ip).filter keep := by
  refine rank_agrees mono keep (List.Perm.of_eq ?_)
  have kept : (results.filter ((fun m => keep m.ip) ∘ shown)) = results.filter fun m => keep m.ip :=
    List.filter_congr fun m member => by rw [Function.comp_apply, ip_of_shows (shows' m member)]
  rw [List.filter_map, kept, List.map_map]
  refine List.map_congr_left fun m member => ?_
  obtain ⟨member, keeps⟩ := List.mem_filter.mp member
  have ip := ip_of_shows (shows' m member)
  simp only [Function.comp_apply, standing, Prod.map_apply, id_eq, ip, scores m member keeps]

/-- A measurement that a prober's answers can lead to. -/
structure Measured (s : Settings) (m : Measurement) : Prop where
  answers : ∃ answers, m = Ranker.resultOf s m.ip answers
  inside : Signed.InRange m.latency

theorem Measured.positive {m : Measurement} (measured : Measured s m) : m.loss.negative = false := by
  obtain ⟨answers, same⟩ := measured.answers
  rw [same]
  exact positive_measure ..

theorem score_of_shown {m m' : Measurement} (shows' : Shows s now m m') (measured : Measured s m)
    (alive : m.latency < deadLatency) (weight : Int) : m'.score weight = m.score weight := by
  cases shows' with
  | fresh => rfl
  | served stored serves => exact score_of_served serves measured.inside measured.positive alive weight

theorem score_of_lost {m m' : Measurement} (shows' : Shows s now m m') (different : m' ≠ m)
    (givenUp : m = .givenUp m.ip) {weight : Int}
    (bounds : 0 ≤ weight ∧ weight ≤ (550 * Unsigned.greatest32 : Nat)) :
    m'.score weight = m.score weight - deadLatency := by
  cases shows' with
  | fresh => exact absurd rfl different
  | served stored serves =>
    obtain ⟨-, loss, penalty, latency⟩ := hit_of_serves serves
    generalize m.ip = ip at givenUp
    subst givenUp
    have latency' : m'.latency = deadLatency := latency
    have loss' : m'.loss = Measurement.totalLoss := loss
    have penalty' : Method.none.penalty = deadLatency := rfl
    simp only [Measurement.score, Measurement.givenUp, Measurement.dead, loss', penalty, penalty',
      latency', Measurement.lossScore_total, Signed.add, Signed.clamp, Signed.lowest, Signed.highest,
      deadLatency, Unsigned.greatest32] at *
    omega

/-- Whatever part of the measurements of distinct addresses the cache answers, the others and those
served below the latency of the unreachable keep their order, and so do, among themselves, the given up
addresses that are served. -/
theorem order_of_served (s : Settings) (book : HistoryBook) (now : Int) (results : List Measurement)
    (shown : Measurement → Measurement) (distinct : (results.map Measurement.ip).Nodup)
    (measured : ∀ m ∈ results, Measured s m) (shows' : ∀ m ∈ results, Shows s now m (shown m))
    (counters : ∀ ip, (book.record ip).Within Unsigned.greatest32) :
    let order (results : List Measurement) := (rank results book now).map Measurement.ip
    let beyond := (results.filter fun m => shown m ≠ m ∧ deadLatency ≤ m.latency).map Measurement.ip
    let lost := (results.filter fun m => shown m ≠ m ∧ m = .givenUp m.ip).map Measurement.ip
    (order (results.map shown)).filter (· ∉ beyond) = (order results).filter (· ∉ beyond) ∧
      (order (results.map shown)).filter (· ∈ lost) = (order results).filter (· ∈ lost) ∧
      (beyond = [] → order (results.map shown) = order results) := by
  intro order beyond lost
  have others : (order (results.map shown)).filter (· ∉ beyond) =
      (order results).filter (· ∉ beyond) := by
    refine (order_of_shown strictMono_id _ shows' fun m member keeps => ?_).symm
    have near : shown m = m ∨ m.latency < deadLatency := by
      by_contra far
      obtain ⟨different, far⟩ := not_or.mp far
      have here : m.ip ∈ beyond := List.mem_map_of_mem (List.mem_filter.mpr
        ⟨member, decide_eq_true ⟨different, Int.not_lt.mp far⟩⟩)
      exact of_decide_eq_true keeps here
    rcases near with same | alive
    · rw [same, id_eq]
    · exact score_of_shown (shows' m member) (measured m member) alive _
  have theLost : (order (results.map shown)).filter (· ∈ lost) = (order results).filter (· ∈ lost) := by
    have mono : StrictMono fun score : Int => score - deadLatency := fun x y less => by
      dsimp only
      omega
    refine (order_of_shown mono _ shows' fun m member keeps => ?_).symm
    obtain ⟨m', chosen, ip⟩ := List.mem_map.mp (of_decide_eq_true keeps)
    obtain ⟨member', chosen⟩ := List.mem_filter.mp chosen
    have same : m' = m := List.inj_on_of_nodup_map distinct member' member ip
    rw [same] at chosen
    obtain ⟨different, givenUp⟩ := of_decide_eq_true chosen
    exact score_of_lost (shows' m member) different givenUp
      (HistoryBook.weight_of_within counters (by decide) m.ip now)
  refine ⟨others, theLost, fun none' => ?_⟩
  rw [none'] at others
  simpa using others

/-- With the reached addresses served, and the lost one measured, nothing changes. -/
theorem order_of_served_reached :
    let near := Ranker.resultOf {} "10.0.0.1" [some ⟨30, .udp53⟩, none, some ⟨20, .udp53⟩]
    let far := Ranker.resultOf {} "10.0.0.2" [some ⟨700, .tls⟩, some ⟨650, .tls⟩, some ⟨690, .tls⟩]
    let results := [far, .givenUp "10.0.0.3", near]
    let shown (m : Measurement) :=
      if m.abandoned then m else ((Ranker.entryFor {} 1000 m).serve m.ip 5000).getD m
    let book := (HistoryBook.inMemory 604800000 100).note (.failed "10.0.0.2" 1000)
    (shown near ≠ near ∧ shown far ≠ far) ∧
      (rank (results.map shown) book 5000).map Measurement.ip =
        (rank results book 5000).map Measurement.ip := by
  intro near far results shown book
  have fromEmpty : HistoryBook.FromEmpty 604800000 100 book := .noted .opened _
  have counters (ip : String) :=
    HistoryBook.counters_of_fromEmpty fromEmpty (by decide : _ ≤ Unsigned.greatest32) ip
  have measured : ∀ m ∈ results, Measured {} m := by
    refine List.forall_mem_cons.mpr ⟨⟨⟨_, rfl⟩, by decide +kernel⟩, ?_⟩
    refine List.forall_mem_cons.mpr ⟨⟨⟨[none], rfl⟩, by decide +kernel⟩, ?_⟩
    exact List.forall_mem_singleton.mpr ⟨⟨_, rfl⟩, by decide +kernel⟩
  have shows' (m : Measurement) : Shows {} 5000 m (shown m) := by
    by_cases abandoned : m.abandoned = true
    · simp only [shown, abandoned, if_true]
      exact .fresh
    · simp only [shown, abandoned]
      cases serves : (Ranker.entryFor {} 1000 m).serve m.ip 5000 with
      | none => exact .fresh
      | some hit => exact .served 1000 serves
  refine ⟨by decide +kernel, ?_⟩
  exact (order_of_served {} book 5000 results shown (by decide +kernel) measured
    (fun m _ => shows' m) counters).2.2 (by decide +kernel)

/-- Two given up addresses change places once the cache answers the second: its failures weigh less than
the penalty it loses. -/
theorem served_lost_first :
    ¬∀ (s : Settings) (book : HistoryBook) (now : Int) (results : List Measurement)
      (shown : Measurement → Measurement), (results.map Measurement.ip).Nodup →
      (∀ m ∈ results, Measured s m) → (∀ m ∈ results, Shows s now m (shown m)) →
      (∀ ip, (book.record ip).Within Unsigned.greatest32) →
      (rank (results.map shown) book now).map Measurement.ip =
        (rank results book now).map Measurement.ip := by
  intro same
  let first := Measurement.givenUp "10.0.0.1"
  let second := Measurement.givenUp "10.0.0.2"
  let hit : Measurement := { Measurement.dead "10.0.0.2" with method := .cached }
  let book := (HistoryBook.inMemory 604800000 100).note (.failed "10.0.0.2" 1000)
  let shown (m : Measurement) : Measurement := if m.ip = "10.0.0.2" then hit else m
  have shownFirst : shown first = first := if_neg (by decide)
  have shownSecond : shown second = hit := if_pos rfl
  have fromEmpty : HistoryBook.FromEmpty 604800000 100 book := .noted .opened _
  have counters (ip : String) :=
    HistoryBook.counters_of_fromEmpty fromEmpty (by decide : _ ≤ Unsigned.greatest32) ip
  have measured (ip : String) : Measured {} (.givenUp ip) := by
    refine ⟨⟨[none], rfl⟩, ?_⟩
    change Signed.InRange deadLatency
    decide
  have shows' : ∀ m ∈ [first, second], Shows {} 1000 m (shown m) := by
    refine List.forall_mem_cons.mpr ⟨?_, List.forall_mem_singleton.mpr ?_⟩
    · rw [shownFirst]
      exact .fresh
    · rw [shownSecond]
      exact .served 1000 (by decide +kernel)
  have changed := same {} book 1000 [first, second] shown (by decide)
    (List.forall_mem_cons.mpr ⟨measured _, List.forall_mem_singleton.mpr (measured _)⟩) shows' counters
  have fresh : (rank [first, second] book 1000).map Measurement.ip = ["10.0.0.1", "10.0.0.2"] :=
    ips_rank (List.Perm.refl [first, second]) (by decide +kernel)
  have mixed : (rank [first, hit] book 1000).map Measurement.ip = ["10.0.0.2", "10.0.0.1"] :=
    ips_rank (List.Perm.swap first hit []) (by decide +kernel)
  have arranged : [first, second].map shown = [first, hit] := by
    rw [List.map_cons, List.map_singleton, shownFirst, shownSecond]
  rw [arranged, mixed, fresh] at changed
  exact absurd changed (by decide)

end Order

end Ranking

end LatencyRank
