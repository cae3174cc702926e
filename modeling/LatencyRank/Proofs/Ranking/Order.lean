import Mathlib
import LatencyRank.Ranking.Score

/-!
The order of a ranking is settled by the scores and the addresses alone. It is sorted, it keeps what
it is given, and two rankings whose measurements stand alike name the addresses in one order.
-/

namespace LatencyRank

namespace Ranking

def Ordered (book : HistoryBook) (now : Int) (x y : Measurement) : Prop :=
  x.score (book.weight x.ip now) < y.score (book.weight y.ip now) ∨
    (x.score (book.weight x.ip now) = y.score (book.weight y.ip now) ∧ x.ip ≤ y.ip)

instance (book : HistoryBook) (now : Int) (x y : Measurement) : Decidable (Ordered book now x y) :=
  inferInstanceAs (Decidable (_ ∨ _))

theorem Scored.before_trans (x y z : Scored) (early : x.le y = true) (late : y.le z = true) :
    x.le z = true := by
  simp only [Scored.le, decide_eq_true_eq] at early late ⊢
  rcases early with less | ⟨same, ip⟩
  · rcases late with less' | ⟨same', -⟩ <;> omega
  · rcases late with less' | ⟨same', ip'⟩
    · omega
    · exact Or.inr ⟨same.trans same', le_trans ip ip'⟩

theorem Scored.before_total (x y : Scored) : (x.le y || y.le x) = true := by
  simp only [Scored.le, Bool.or_eq_true, decide_eq_true_eq]
  rcases lt_trichotomy x.score y.score with less | same | more
  · exact Or.inl (Or.inl less)
  · rcases le_total x.measurement.ip y.measurement.ip with ip | ip
    · exact Or.inl (Or.inr ⟨same, ip⟩)
    · exact Or.inr (Or.inr ⟨same.symm, ip⟩)
  · exact Or.inr (Or.inl more)

theorem rank_perm (results : List Measurement) (book : HistoryBook) (now : Int) :
    (rank results book now).Perm results := by
  have sorted := ((results.map (scored book now)).mergeSort_perm Scored.le).map Scored.measurement
  rw [List.map_map] at sorted
  have same : Scored.measurement ∘ scored book now = id := rfl
  rw [same, List.map_id] at sorted
  exact sorted

theorem rank_ordered (results : List Measurement) (book : HistoryBook) (now : Int) :
    (rank results book now).Pairwise (Ordered book now) := by
  have sorted := List.pairwise_mergeSort Scored.before_trans Scored.before_total
    (results.map (scored book now))
  refine List.pairwise_map.mpr (sorted.imp_of_mem ?_)
  intro x y first second before
  obtain ⟨m, -, rfl⟩ := List.mem_map.mp ((List.mergeSort_perm _ _).mem_iff.mp first)
  obtain ⟨m', -, rfl⟩ := List.mem_map.mp ((List.mergeSort_perm _ _).mem_iff.mp second)
  simp only [Scored.le, decide_eq_true_eq] at before
  exact before

section Standing

variable {book : HistoryBook} {now : Int}

def standing (book : HistoryBook) (now : Int) (m : Measurement) : Int × String :=
  (m.score (book.weight m.ip now), m.ip)

/-- Sorted lists whose measurements stand alike, but for a shift of the scores that keeps their order,
name the same addresses in the same order. -/
theorem ips_of_ordered {shift : Int → Int} (mono : StrictMono shift) {xs ys : List Measurement}
    (sorted : xs.Pairwise (Ordered book now)) (sorted' : ys.Pairwise (Ordered book now))
    (alike : (xs.map (Prod.map shift id ∘ standing book now)).Perm (ys.map (standing book now))) :
    xs.map Measurement.ip = ys.map Measurement.ip := by
  let before (a b : Int × String) : Prop := a.1 < b.1 ∨ (a.1 = b.1 ∧ a.2 ≤ b.2)
  have antisymm (a b : Int × String) : before a b → before b a → a = b := by
    rintro (less | ⟨same, ip⟩) (more | ⟨same', ip'⟩)
    · omega
    · omega
    · omega
    · exact Prod.ext same (le_antisymm ip ip')
  have shifted : (xs.map (Prod.map shift id ∘ standing book now)).Pairwise before :=
    List.pairwise_map.mpr (sorted.imp fun ordered =>
      ordered.imp (fun less => mono less) fun ⟨same, ip⟩ => ⟨congrArg shift same, ip⟩)
  have same : xs.map (Prod.map shift id ∘ standing book now) = ys.map (standing book now) :=
    List.Perm.eq_of_pairwise (fun a b _ _ => antisymm a b) shifted (List.pairwise_map.mpr sorted') alike
  have ips := congrArg (List.map Prod.snd) same
  rw [List.map_map, List.map_map] at ips
  exact ips

theorem ips_rank {results sorted : List Measurement} (arranged : sorted.Perm results)
    (ordered : sorted.Pairwise (Ordered book now)) :
    (rank results book now).map Measurement.ip = sorted.map Measurement.ip := by
  refine ips_of_ordered strictMono_id (rank_ordered results book now) ordered ?_
  exact ((rank_perm results book now).trans arranged.symm).map _

/-- Two rankings agree on the addresses of a group if the group's measurements stand alike in both. -/
theorem rank_agrees {shift : Int → Int} (mono : StrictMono shift) {results results' : List Measurement}
    (keep : String → Bool)
    (alike : ((results.filter fun m => keep m.ip).map (Prod.map shift id ∘ standing book now)).Perm
      ((results'.filter fun m => keep m.ip).map (standing book now))) :
    ((rank results book now).map Measurement.ip).filter keep =
      ((rank results' book now).map Measurement.ip).filter keep := by
  have group (xs : List Measurement) :
      ((rank xs book now).filter fun m => keep m.ip).Perm (xs.filter fun m => keep m.ip) :=
    (rank_perm xs book now).filter _
  rw [List.filter_map, List.filter_map]
  exact ips_of_ordered mono ((rank_ordered results book now).filter _)
    ((rank_ordered results' book now).filter _)
    (((group results).map _).trans (alike.trans ((group results').map _).symm))

theorem ordered_congr {book' : HistoryBook} (same : ∀ ip, book'.weight ip now = book.weight ip now)
    {x y : Measurement} : Ordered book' now x y ↔ Ordered book now x y := by
  unfold Ordered
  rw [same, same]

theorem standing_of_ordered {x y : Measurement} (early : Ordered book now x y)
    (late : Ordered book now y x) : standing book now x = standing book now y := by
  rcases early with less | ⟨same, ip⟩ <;> rcases late with more | ⟨same', ip'⟩
  · omega
  · omega
  · omega
  · exact Prod.ext same (le_antisymm ip ip')

/-- Measurements that differ in their standings have one order. -/
theorem eq_of_standings {xs ys : List Measurement} (arranged : ys.Perm xs)
    (distinct : (xs.map (standing book now)).Nodup) (sorted : xs.Pairwise (Ordered book now))
    (sorted' : ys.Pairwise (Ordered book now)) : ys = xs := by
  refine List.Perm.eq_of_pairwise (fun x y first second early late => ?_) sorted' sorted arranged
  exact List.inj_on_of_nodup_map distinct (arranged.mem_iff.mp first) second
    (standing_of_ordered early late)

theorem eq_of_ordered {xs ys : List Measurement} (arranged : ys.Perm xs)
    (distinct : (xs.map Measurement.ip).Nodup) (sorted : xs.Pairwise (Ordered book now))
    (sorted' : ys.Pairwise (Ordered book now)) : ys = xs := by
  have ips : (xs.map (standing book now)).map Prod.snd = xs.map Measurement.ip := List.map_map
  exact eq_of_standings arranged (List.Nodup.of_map Prod.snd (ips ▸ distinct)) sorted sorted'

end Standing

end Ranking

end LatencyRank
