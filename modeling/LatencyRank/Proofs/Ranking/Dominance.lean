import Mathlib
import LatencyRank.Proofs.Binary64
import LatencyRank.Proofs.Ranking.Order

/-!
What a ranking makes of better and worse. A score adds four amounts, from the left, and no sum leaves the
signed range. No saturated sum and no rounding turns two scores round, so
a measurement that is nowhere worse stands first unless its score is exactly the same; then the
addresses decide, and between equal addresses the places they had before.
-/

namespace LatencyRank

namespace Measurement

theorem score_eq (m : Measurement) (weight : Int) :
    let held (sum : Int) : Int := max (-2 ^ 63) (min sum (2 ^ 63 - 1))
    let lost := (m.loss.mul (.ofInt 30)).round
    let penalty : Int := match m.method with
      | .icmp | .cached | .stale => 0
      | .tls | .tcp443 => 100
      | .tcp80 => 300
      | .udp53 => 500
      | .none => 999999
    m.score weight = held (held (held (m.latency + lost) + penalty) + weight) := by
  intro held lost penalty
  have table : m.method.penalty = penalty := by
    unfold penalty
    cases m.method <;> rfl
  rw [← table]
  rfl

/-- Whole percents count thirty times, with no rounding. -/
theorem lossScore_whole {percent : Nat} (most : percent ≤ 100) :
    ((Binary64.ofInt percent).mul (.ofInt 30)).round = 30 * percent := by
  have product : (Binary64.ofInt percent).mul (.ofInt (30 : Nat)) = .ofInt (percent * 30 : Nat) :=
    Binary64.ofInt_mul_ofInt (by omega) (by decide) (by omega)
  refine (congrArg Binary64.round product).trans ?_
  rw [Binary64.round_ofInt (by omega)]
  omega

/-- One measurement is nowhere worse than another: not in latency, loss or method, nor in the weight
of its failures. -/
structure Dominates (m : Measurement) (weight : Int) (m' : Measurement) (weight' : Int) : Prop where
  latency : m.latency ≤ m'.latency
  loss : m.loss ≤ m'.loss
  penalty : m.method.penalty ≤ m'.method.penalty
  weight : weight ≤ weight'

theorem score_le_score {m m' : Measurement} {weight weight' : Int}
    (better : m.Dominates weight m' weight') : m.score weight ≤ m'.score weight' := by
  have lost : (m.loss.mul lossFactor).round ≤ (m'.loss.mul lossFactor).round :=
    Binary64.round_mono (Binary64.mul_le_mul_of_positive (Binary64.negative_ofInt 30) better.loss)
  exact Signed.add_le_add (Signed.add_le_add (Signed.add_le_add better.latency lost) better.penalty)
    better.weight

end Measurement

namespace Ranking

variable {book : HistoryBook} {now : Int}

def alike (book : HistoryBook) (now : Int) (key : Int × String) (results : List Measurement) :
    List Measurement :=
  results.filter fun m => standing book now m = key

theorem le_of_standing {x y : Measurement} (same : standing book now x = standing book now y) :
    (scored book now x).le (scored book now y) = true := by
  obtain ⟨score, ip⟩ := Prod.mk.injEq .. ▸ same
  exact decide_eq_true (Or.inr ⟨score, le_of_eq ip⟩)

theorem alike_rank (results : List Measurement) (key : Int × String) :
    alike book now key (rank results book now) = alike book now key results := by
  -- a sort keeps every sorted sublist, and a group of one standing is sorted
  have kept : ((alike book now key results).map (scored book now)).Sublist
      ((results.map (scored book now)).mergeSort Scored.le) := by
    refine List.sublist_mergeSort Scored.before_trans Scored.before_total ?_
      (List.filter_sublist.map _)
    refine List.pairwise_map.mpr (List.pairwise_of_forall_mem_list fun x first y second => ?_)
    have left := of_decide_eq_true (List.mem_filter.mp first).2
    have right := of_decide_eq_true (List.mem_filter.mp second).2
    exact le_of_standing (left.trans right.symm)
  have ranked : (alike book now key results).Sublist (rank results book now) := by
    have named := kept.map Scored.measurement
    rwa [List.map_map, show Scored.measurement ∘ scored book now = id from rfl, List.map_id] at named
  have group : (alike book now key results).Sublist (alike book now key (rank results book now)) := by
    have twice := ranked.filter fun m => decide (standing book now m = key)
    simp only [alike, List.filter_filter, Bool.and_self] at twice
    exact twice
  -- and the sort puts nothing into the group that was not in it
  exact (group.eq_of_length ((rank_perm results book now).filter _).length_eq.symm).symm

theorem tie_of_second {results : List Measurement} {a b : Measurement}
    (better : a.Dominates (book.weight a.ip now) b (book.weight b.ip now))
    (second : [b, a].Sublist (rank results book now)) :
    a.score (book.weight a.ip now) = b.score (book.weight b.ip now) ∧
      (b.ip < a.ip ∨ (b.ip = a.ip ∧ [b, a].Sublist results)) := by
  have ordered : Ordered book now b a :=
    List.rel_of_pairwise_cons ((rank_ordered results book now).sublist second) List.mem_cons_self
  have least := Measurement.score_le_score better
  rcases ordered with less | ⟨tie, ip⟩
  · omega
  refine ⟨tie.symm, ?_⟩
  rcases lt_or_eq_of_le ip with before | same
  · exact Or.inl before
  -- the two stand alike, and the group of their standing is as it was
  have group : [b, a].Sublist (alike book now (standing book now a) (rank results book now)) := by
    have stand : standing book now b = standing book now a := Prod.ext tie same
    have both : alike book now (standing book now a) [b, a] = [b, a] := by simp [alike, stand]
    rw [← both]
    exact second.filter _
  rw [alike_rank] at group
  exact Or.inr ⟨same, group.trans List.filter_sublist⟩

/-- A ranking keeps what it is given, in the order of scores and addresses, and leaves equals in their
places. A score is the latency, the rounded thirtyfold loss, the penalty of the method and the weight of the
failures, each sum held in the range of 64 bits. Distinct standings have one ranking, whatever order they
come in; and what is nowhere worse than another has no greater score and stands after it only at a tie. -/
theorem rank_by_standing (results : List Measurement) (book : HistoryBook) (now : Int) :
    (rank results book now).Perm results ∧
    (rank results book now).Pairwise (Ordered book now) ∧
    ((∀ (m : Measurement) (weight : Int),
        let held (sum : Int) : Int := max (-2 ^ 63) (min sum (2 ^ 63 - 1))
        let lost := (m.loss.mul (.ofInt 30)).round
        let penalty : Int := match m.method with
          | .icmp | .cached | .stale => 0
          | .tls | .tcp443 => 100
          | .tcp80 => 300
          | .udp53 => 500
          | .none => 999999
        m.score weight = held (held (held (m.latency + lost) + penalty) + weight)) ∧
      ∀ percent : Nat, percent ≤ 100 →
        ((Binary64.ofInt percent).mul (.ofInt 30)).round = 30 * percent) ∧
    (∀ key, alike book now key (rank results book now) = alike book now key results) ∧
    (∀ xs ys : List Measurement, xs.Perm results → ys.Perm results →
      (results.map (standing book now)).Nodup → rank xs book now = rank ys book now) ∧
    (∀ (a b : Measurement) (weight weight' : Int), a.Dominates weight b weight' →
      a.score weight ≤ b.score weight') ∧
    ∀ a b : Measurement, a.Dominates (book.weight a.ip now) b (book.weight b.ip now) →
      [b, a].Sublist (rank results book now) →
      a.score (book.weight a.ip now) = b.score (book.weight b.ip now) ∧
        (b.ip < a.ip ∨ (b.ip = a.ip ∧ [b, a].Sublist results)) := by
  refine ⟨rank_perm results book now, rank_ordered results book now,
    ⟨Measurement.score_eq, fun _ => Measurement.lossScore_whole⟩, alike_rank results,
    fun xs ys arranged arranged' distinct => ?_, fun a b _ _ => Measurement.score_le_score,
    fun a b => tie_of_second⟩
  have distinct' : ((rank ys book now).map (standing book now)).Nodup :=
    ((((rank_perm ys book now).trans arranged').map _).nodup_iff).mpr distinct
  have ranked : (rank xs book now).Perm (rank ys book now) :=
    (rank_perm xs book now).trans
      ((arranged.trans arranged'.symm).trans (rank_perm ys book now).symm)
  exact eq_of_standings ranked distinct' (rank_ordered ys book now) (rank_ordered xs book now)

/-- Two latencies at the end of the range: the penalty of the second is lost in the saturated sum, and
the addresses break the tie against the first. -/
theorem rank_by_standing_saturated :
    let far : Measurement := ⟨"10.0.0.2", Signed.highest, .zero, .icmp, false⟩
    let far' : Measurement := ⟨"10.0.0.1", Signed.highest, .zero, .tls, false⟩
    let book := HistoryBook.inMemory 604800000 100
    far.Dominates (book.weight far.ip 0) far' (book.weight far'.ip 0) ∧
    [far', far].Sublist (rank [far, far'] book 0) ∧
    far.score (book.weight far.ip 0) = far'.score (book.weight far'.ip 0) ∧
    ((List.map (standing book 0) [far, far']).Nodup ∧ rank [far, far'] book 0 = rank [far', far] book 0) ∧
    far'.ip < far.ip := by
  intro far far' book
  obtain ⟨perm, sorted, -, -, swap, -, tie⟩ := rank_by_standing [far, far'] book 0
  have better : far.Dominates (book.weight far.ip 0) far' (book.weight far'.ip 0) :=
    ⟨by decide, by decide, by decide, by decide⟩
  have distinct : (List.map (standing book 0) [far, far']).Nodup := by decide +kernel
  have ordered : [far', far].Pairwise (Ordered book 0) := by decide +kernel
  have ranked : rank [far, far'] book 0 = [far', far] :=
    eq_of_standings (perm.trans (List.Perm.swap far' far [])) (by decide +kernel) ordered sorted
  have second : [far', far].Sublist (rank [far, far'] book 0) := by rw [ranked]
  obtain ⟨same, -⟩ := tie far far' better second
  exact ⟨better, second, same,
    ⟨distinct, swap _ _ (List.Perm.refl _) (List.Perm.swap far far' []) distinct⟩, by decide⟩

end Ranking

end LatencyRank
