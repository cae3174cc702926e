import Mathlib
import LatencyRank.Proofs.Measurement.Attempts

/-!
What a measurement is, said without the attempts being made one after another: it is given up if the
first attempt failed, and else it has the method of the first attempt, the latency that the strategy
makes of the successful ones with a penalty for each lost one, and the share of lost ones in percent.
Whether an attempt was lost, and that not all were, can be seen from that share.
-/

namespace LatencyRank

section Latencies

/-- What a strategy makes of latencies: the least of them, or their sum by their number. -/
def Strategy.Combines (latencies : List Int) (base : Int) : Strategy → Prop
  | .minimum => base ∈ latencies ∧ ∀ x ∈ latencies, base ≤ x
  | .average => base = latencies.sum.tdiv latencies.length

theorem combines_of_combine {strategy : Strategy} {latencies : List Int} {base : Int}
    (combined : strategy.combine latencies = some base) : strategy.Combines latencies base := by
  cases latencies with
  | nil => cases strategy <;> cases combined
  | cons first rest =>
    cases strategy with
    | minimum =>
      cases combined
      exact List.min?_eq_some_iff.mp List.min?_cons'
    | average =>
      cases combined
      rw [Strategy.Combines, List.sum_eq_foldl]

end Latencies

section Attempts

variable {q : Progress} {answers : List (Option Sample)}

/-- What the attempts of a measurement amount to, the first of which succeeded. -/
structure Amounts (ip : String) (strategy : Strategy) (first : Sample) (answers : List (Option Sample))
    (m : Measurement) : Prop where
  address : m.ip = ip
  goesOn : m.abandoned = false
  method : m.method = first.method
  /-- There is a latency to combine, and every lost attempt makes it worse. -/
  latency : answers.filterMap (Option.map Sample.latency) ≠ [] ∧
    ∃ base, strategy.Combines (answers.filterMap (Option.map Sample.latency)) base ∧
      m.latency = base + answers.count none * lostAttemptPenalty
  loss : m.loss = ((Binary64.ofInt (answers.count none)).div (.ofInt answers.length)).mul (.ofInt 100)
  lossless : m.loss.isZero = true ↔ answers.count none = 0
  partly : m.loss < Measurement.totalLoss
  /-- It is not the measurement that stands for none. -/
  alive : m ≠ .dead ip

theorem amounts_of_taken {ip : String} {strategy : Strategy} {first : Sample}
    (few : answers.length ≤ Unsigned.greatest32) (began : answers.head? = some (some first))
    (taken : ({} : Progress).takeAll answers = some q) :
    Amounts ip strategy first answers (q.conclude ip strategy) := by
  obtain ⟨rest, rfl⟩ := List.head?_eq_some_iff.mp began
  obtain ⟨base, combined, shape⟩ := conclude_eq taken ip strategy
  have parts := length_latencies (some first :: rest)
  have some' : (some first :: rest).filterMap (Option.map Sample.latency) ≠ [] := by simp
  have less : (some first :: rest).count none < (some first :: rest).length := by
    have positive := List.length_pos_iff.mpr some'
    omega
  have partly := Binary64.percent_lt less (few.trans (by decide))
  rw [shape]
  refine ⟨rfl, rfl, rfl, ⟨some', base, combines_of_combine combined, rfl⟩, rfl, ?_, partly, ?_⟩
  · exact Binary64.isZero_percent _ _ (Nat.zero_lt_of_lt less)
  · -- a dead address has lost everything
    intro dead
    have total := congrArg Measurement.loss dead
    dsimp only at total
    rw [total] at partly
    exact absurd partly (Int.lt_irrefl _)

end Attempts

section Specification

theorem measure_amounts (ip : String) (strategy : Strategy) {count : Nat} (some' : 1 ≤ count)
    (few : count ≤ Unsigned.greatest32) {answers : List (Option Sample)} (all : answers.length = count) :
    (answers.head? = some none → measure ip strategy count {} answers = (.givenUp ip, 1)) ∧
    ∀ first, answers.head? = some (some first) →
      (measure ip strategy count {} answers).2 = count ∧
        Amounts ip strategy first answers (measure ip strategy count {} answers).1 := by
  constructor
  · intro lost
    obtain ⟨left, rfl⟩ := Nat.exists_eq_succ_of_ne_zero (Nat.ne_of_gt some')
    rw [measure, lost]
    rfl
  · intro first began
    have goesOn : answers.head? ≠ some none := by
      rw [began]
      exact fun same => (by cases same)
    obtain ⟨q, taken⟩ : ∃ q, ({} : Progress).takeAll answers = some q :=
      Option.ne_none_iff_exists'.mp fun nothing => goesOn (Progress.takeAll_eq_none.mp nothing)
    have result : measure ip strategy count {} answers = (q.conclude ip strategy, q.made) := by
      rw [← all]
      exact measure_eq_of_taken taken ip strategy
    rw [result]
    refine ⟨?_, amounts_of_taken (all ▸ few) began taken⟩
    rw [(Progress.counted taken).1, all]
    exact Nat.zero_add count

end Specification

end LatencyRank
