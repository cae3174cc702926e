import Mathlib
import LatencyRank.Proofs.Measurement.Attempts
import LatencyRank.Ranking.Score

/-!
How bad a measurement can be. With one success its latency is that of the samples and what the lost
attempts add, and its loss in percent counts for at most what a total loss does; without any it is
given up, with the latency and the loss that say so.
-/

namespace LatencyRank

section Latencies

variable {low high : Int}

theorem foldl_min_bounds {first : Int} (inside : low ≤ first ∧ first ≤ high) {rest : List Int}
    (others : ∀ x ∈ rest, low ≤ x ∧ x ≤ high) :
    low ≤ rest.foldl min first ∧ rest.foldl min first ≤ high := by
  induction rest generalizing first with
  | nil => exact inside
  | cons x rest ih =>
    have inside' := others x List.mem_cons_self
    exact ih (by omega) fun y member => others y (List.mem_cons_of_mem x member)

theorem foldl_add_bounds {rest : List Int} (others : ∀ x ∈ rest, 0 ≤ x ∧ x ≤ high) (sum : Int) :
    sum ≤ rest.foldl (· + ·) sum ∧ rest.foldl (· + ·) sum ≤ sum + high * rest.length := by
  induction rest generalizing sum with
  | nil => simp
  | cons x rest ih =>
    have inside := others x List.mem_cons_self
    obtain ⟨least, most⟩ := ih (fun y member => others y (List.mem_cons_of_mem x member)) (sum + x)
    rw [List.foldl_cons, List.length_cons, Nat.cast_add, Int.mul_add]
    constructor <;> omega

theorem combine_bounds {latencies : List Int} (inside : ∀ x ∈ latencies, 0 ≤ x ∧ x ≤ high)
    {strategy : Strategy} {latency : Int} (combined : strategy.combine latencies = some latency) :
    0 ≤ latency ∧ latency ≤ high := by
  cases latencies with
  | nil => cases strategy <;> cases combined
  | cons first rest =>
    cases strategy with
    | minimum =>
      cases combined
      exact foldl_min_bounds (inside first List.mem_cons_self)
        fun x member => inside x (List.mem_cons_of_mem first member)
    | average =>
      cases combined
      obtain ⟨least, most⟩ := foldl_add_bounds inside 0
      have some' : (0 : Int) < (first :: rest).length := by simp
      refine ⟨Int.tdiv_nonneg least (Int.natCast_nonneg _), ?_⟩
      rw [Int.tdiv_eq_ediv_of_nonneg least]
      exact Int.ediv_le_of_le_mul some' (by omega)

end Latencies

section Fair

/-- The methods of an attempt that a prober makes. -/
def Method.probing : List Method := [.icmp, .tls, .tcp443, .tcp80, .udp53]

/-- A sample within a bound, by a method of a prober. -/
structure Sample.Fair (bound : Int) (sample : Sample) : Prop where
  latency : 0 ≤ sample.latency ∧ sample.latency ≤ bound
  method : sample.method ∈ Method.probing

/-- Attempts that began with a success. -/
structure Progress.Fair (bound : Int) (p : Progress) : Prop where
  some' : p.latencies ≠ []
  few : p.latencies.length ≤ p.made
  latencies : ∀ x ∈ p.latencies, 0 ≤ x ∧ x ≤ bound
  method : ∃ method ∈ Method.probing, p.method = some method

/-- A measurement of an address that was reached. -/
structure Measurement.Fair (bound : Int) (m : Measurement) : Prop where
  latency : 0 ≤ m.latency ∧ m.latency ≤ bound
  positive : m.loss.negative = false
  loss : m.loss.units ≤ 100 * Binary64.one
  method : m.method ∈ Method.probing

variable {bound : Int}

theorem Progress.Fair.take {p : Progress} (fair : p.Fair bound) {answer : Option Sample}
    (plain : ∀ sample, answer = some sample → sample.Fair bound) :
    ∃ q, p.take answer = some q ∧ q.made = p.made + 1 ∧ q.Fair bound := by
  have begun : 0 < p.made :=
    Nat.lt_of_lt_of_le (List.length_pos_iff.mpr fair.some') fair.few
  have few := fair.few
  cases answer with
  | none =>
    refine ⟨{ p with made := p.made + 1 }, ?_, rfl, fair.some', ?_, fair.latencies, fair.method⟩
    · exact if_neg (Nat.ne_of_gt begun)
    · dsimp only
      omega
  | some sample =>
    obtain ⟨method, probing, known⟩ := fair.method
    have inside := (plain sample rfl).latency
    refine ⟨_, rfl, rfl, by simp, ?_, ?_, method, probing, ?_⟩
    · simp only [List.length_append, List.length_singleton]
      omega
    · intro x member
      rcases List.mem_append.mp member with old | new
      · exact fair.latencies x old
      · rw [List.mem_singleton.mp new]
        exact inside
    · simp [known]

theorem Progress.Fair.conclude {p : Progress} (fair : p.Fair bound) (ip : String)
    (strategy : Strategy) :
    (p.conclude ip strategy).Fair (bound + lostAttemptPenalty * (p.made - 1)) := by
  obtain ⟨method, probing, known⟩ := fair.method
  obtain ⟨latency, combined⟩ : ∃ latency, strategy.combine p.latencies = some latency :=
    Option.ne_none_iff_exists'.mp fun nothing => fair.some' (combine_eq_none.mp nothing)
  have inside := combine_bounds fair.latencies combined
  have counted := fair.few
  have some' := List.length_pos_iff.mpr fair.some'
  simp only [Progress.conclude, known, combined]
  refine ⟨?_, ?_, ?_, probing⟩
  · simp only [lostAttemptPenalty]
    omega
  · exact Binary64.negative_mul (Binary64.negative_share _ _) (Binary64.negative_ofInt 100)
  · have share : ((Binary64.ofInt ((p.made - p.latencies.length : Nat) : Int)).div
        (.ofInt p.made)).units ≤ 1 * Binary64.one := by
      rw [Nat.one_mul]
      exact Binary64.share_le_one (by omega) (by omega)
    have percent := Binary64.mul_le (n := 100) (by decide) share
      (Nat.le_of_eq (Binary64.units_ofInt (by decide)))
    rwa [Nat.one_mul] at percent

theorem fair_measure {p : Progress} (fair : p.Fair bound) {answers : List (Option Sample)}
    (plain : ∀ sample, some sample ∈ answers → sample.Fair bound) (ip : String) (strategy : Strategy)
    (left : Nat) :
    (measure ip strategy left p answers).1.Fair
      (bound + lostAttemptPenalty * ((p.made + left : Nat) - 1)) := by
  induction left generalizing p answers with
  | zero => exact fair.conclude ip strategy
  | succ left ih =>
    have first (sample : Sample) (here : answers.head?.join = some sample) : sample.Fair bound :=
      plain sample (List.mem_of_mem_head? (Option.join_eq_some_iff.mp here))
    obtain ⟨q, taken, made, fair'⟩ := fair.take first
    rw [measure, taken]
    have plain' : ∀ sample, some sample ∈ answers.tail → sample.Fair bound := fun sample member =>
      plain sample (List.mem_of_mem_tail member)
    have rest := ih fair' plain'
    rwa [made, Nat.add_assoc, Nat.add_comm 1 left] at rest

end Fair

section Reached

def reached (s : Settings) (ip : String) (answers : List (Option Sample)) : Bool :=
  (answers.take (measure ip s.strategy s.attemptCount {} answers).2).any Option.isSome

variable {s : Settings} {ip : String} {answers : List (Option Sample)}

theorem made_le_measure (ip : String) (strategy : Strategy) (left : Nat) (p : Progress)
    (answers : List (Option Sample)) : p.made ≤ (measure ip strategy left p answers).2 := by
  induction left generalizing p answers with
  | zero => exact Nat.le_refl _
  | succ left ih =>
    rw [measure]
    split
    · exact Nat.le_succ _
    · rename_i q taken
      refine Nat.le_trans ?_ (ih q answers.tail)
      rw [Progress.take_eq_some taken]
      exact Nat.le_succ _

/-- An address is reached exactly if its first attempt succeeded: after a failure no other is made. -/
theorem reached_iff : reached s ip answers = true ↔ ∃ sample, answers.head? = some (some sample) := by
  obtain ⟨left, attempts⟩ := Nat.exists_eq_succ_of_ne_zero (Nat.ne_of_gt (Ranker.attemptCount_pos s))
  cases answers with
  | nil => simp [reached]
  | cons answer rest =>
    cases answer with
    | none => simp [reached, attempts, measure, Progress.take]
    | some sample =>
      have made : 0 < (measure ip s.strategy s.attemptCount {} (some sample :: rest)).2 := by
        rw [attempts, measure]
        exact made_le_measure ip s.strategy left ⟨1, [sample.latency], some sample.method⟩ rest
      obtain ⟨more, made'⟩ := Nat.exists_eq_succ_of_ne_zero (Nat.ne_of_gt made)
      simp [reached, made']

theorem result_of_unreached (lost : reached s ip answers = false) :
    Ranker.resultOf s ip answers = .givenUp ip := by
  obtain ⟨left, attempts⟩ := Nat.exists_eq_succ_of_ne_zero (Nat.ne_of_gt (Ranker.attemptCount_pos s))
  have nothing : answers.head?.join = none := by
    by_contra some'
    obtain ⟨sample, first⟩ := Option.ne_none_iff_exists'.mp some'
    have found : reached s ip answers = true :=
      reached_iff.mpr ⟨sample, Option.join_eq_some_iff.mp first⟩
    rw [lost] at found
    cases found
  rw [Ranker.resultOf, attempts, measure, nothing]
  rfl

theorem fair_of_reached {bound : Int} (plain : ∀ sample, some sample ∈ answers → sample.Fair bound)
    (first : reached s ip answers = true) :
    (Ranker.resultOf s ip answers).Fair (bound + lostAttemptPenalty * (s.attemptCount - 1)) := by
  obtain ⟨left, attempts⟩ := Nat.exists_eq_succ_of_ne_zero (Nat.ne_of_gt (Ranker.attemptCount_pos s))
  obtain ⟨sample, head⟩ := reached_iff.mp first
  have begun : (⟨1, [sample.latency], some sample.method⟩ : Progress).Fair bound := by
    have fair := plain sample (List.mem_of_mem_head? head)
    exact ⟨by simp, Nat.le_refl _, by simpa using fair.latency, _, fair.method, rfl⟩
  have rest := fair_measure begun (fun sample member => plain sample (List.mem_of_mem_tail member)) ip
    s.strategy left
  rw [Ranker.resultOf, attempts, measure, head]
  rwa [Nat.add_comm 1 left] at rest

end Reached

section Score

theorem Progress.positive_conclude (p : Progress) (ip : String) (strategy : Strategy) :
    (p.conclude ip strategy).loss.negative = false := by
  unfold Progress.conclude
  split
  · exact Binary64.negative_mul (Binary64.negative_share _ _) (Binary64.negative_ofInt 100)
  · rfl

theorem positive_measure (ip : String) (strategy : Strategy) (left : Nat) (p : Progress)
    (answers : List (Option Sample)) :
    (measure ip strategy left p answers).1.loss.negative = false := by
  induction left generalizing p answers with
  | zero => exact p.positive_conclude ip strategy
  | succ left ih =>
    rw [measure]
    split
    · rfl
    · exact ih _ _

theorem Measurement.lossScore_bounds {m : Measurement} (positive : m.loss.negative = false)
    (loss : m.loss.units ≤ 100 * Binary64.one) :
    0 ≤ (m.loss.mul lossFactor).round ∧ (m.loss.mul lossFactor).round ≤ 3000 := by
  have factor : lossFactor.units = 30 * Binary64.one := Binary64.units_ofInt (n := 30) (by decide)
  have product : (m.loss.mul lossFactor).units ≤ 100 * 30 * Binary64.one :=
    Binary64.mul_le (by decide) loss (Nat.le_of_eq factor)
  have sign : (m.loss.mul lossFactor).negative = false :=
    Binary64.negative_mul positive (Binary64.negative_ofInt 30)
  obtain ⟨least, most⟩ := Binary64.round_bounds (by decide) sign product
  exact ⟨least, by omega⟩

theorem Measurement.lossScore_total : (totalLoss.mul lossFactor).round = 3000 := by
  decide +kernel

end Score

end LatencyRank
