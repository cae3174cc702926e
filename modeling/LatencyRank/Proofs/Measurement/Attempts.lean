import Mathlib
import LatencyRank.Measurement.Attempts
import LatencyRank.Proofs.Binary64

/-!
What a sequence of answers amounts to. A measurement is complete when its first attempt failed or all
attempts were made; its loss is zero exactly if no attempt was lost.
-/

namespace LatencyRank

section Taking

namespace Progress

/-- Several more attempts; `none` where the first of all failed. -/
def takeAll (p : Progress) : List (Option Sample) → Option Progress
  | [] => some p
  | answer :: rest => (p.take answer).bind fun p => p.takeAll rest

theorem takeAll_single (p : Progress) (answer : Option Sample) : p.takeAll [answer] = p.take answer := by
  cases taken : p.take answer <;> simp [takeAll, taken]

theorem takeAll_append (p : Progress) (front back : List (Option Sample)) :
    p.takeAll (front ++ back) = (p.takeAll front).bind fun p => p.takeAll back := by
  induction front generalizing p with
  | nil => rfl
  | cons answer rest ih =>
      simp only [List.cons_append, takeAll]
      cases p.take answer with
      | none => rfl
      | some p' => exact ih p'

/-- Only the very first attempt can end a measurement. -/
theorem takeAll_isSome {p : Progress} (begun : 0 < p.made) (answers : List (Option Sample)) :
    ∃ q, p.takeAll answers = some q := by
  induction answers generalizing p with
  | nil => exact ⟨p, rfl⟩
  | cons answer rest ih =>
      cases answer with
      | none =>
          have goesOn : p.take none = some { p with made := p.made + 1 } := by
            simp [take, Nat.ne_of_gt begun]
          rw [takeAll, goesOn]
          exact ih (Nat.succ_pos _)
      | some sample => exact ih (Nat.succ_pos _)

theorem takeAll_eq_none {answers : List (Option Sample)} :
    ({} : Progress).takeAll answers = none ↔ answers.head? = some none := by
  cases answers with
  | nil => simp [takeAll]
  | cons answer rest =>
      cases answer with
      | none => simp [takeAll, take]
      | some sample =>
          obtain ⟨q, taken⟩ := takeAll_isSome (p := (⟨1, [sample.latency], some sample.method⟩ : Progress))
            Nat.one_pos rest
          have first : ({} : Progress).takeAll (some sample :: rest) = some q := taken
          simp [first]

theorem began_of_taken {p : Progress} {answers : List (Option Sample)}
    (taken : ({} : Progress).takeAll answers = some p) : answers.head? ≠ some none := by
  intro lost
  rw [takeAll_eq_none.mpr lost] at taken
  cases taken

theorem take_eq_some {p q : Progress} {answer : Option Sample} (taken : p.take answer = some q) :
    q = { made := p.made + 1
          latencies := p.latencies ++ (answer.map Sample.latency).toList
          method := p.method.or (answer.map Sample.method) } := by
  cases answer with
  | none =>
      simp only [take] at taken
      split at taken
      · cases taken
      · cases taken
        simp
  | some sample =>
      cases taken
      cases p.method <;> rfl

/-- The attempts are counted, each success leaves its latency, and the first one its method. -/
theorem takeAll_eq_some {p q : Progress} {answers : List (Option Sample)}
    (taken : p.takeAll answers = some q) :
    q = { made := p.made + answers.length
          latencies := p.latencies ++ answers.filterMap (Option.map Sample.latency)
          method := p.method.or (answers.findSome? (Option.map Sample.method)) } := by
  induction answers generalizing p with
  | nil =>
      cases taken
      simp
  | cons answer rest ih =>
      obtain ⟨mid, first, later⟩ := Option.bind_eq_some_iff.mp taken
      rw [ih later, take_eq_some first, List.length_cons]
      cases answer with
      | none => simp [Nat.add_right_comm, Nat.add_assoc]
      | some sample => simp [Nat.add_right_comm, Nat.add_assoc]

theorem counted {p q : Progress} {answers : List (Option Sample)}
    (taken : p.takeAll answers = some q) :
    q.made = p.made + answers.length ∧
      q.latencies = p.latencies ++ answers.filterMap (Option.map Sample.latency) := by
  rw [takeAll_eq_some taken]
  exact ⟨rfl, rfl⟩

end Progress

end Taking

section Outcomes

/-- So many attempts were answered that the measurement is over. -/
def Complete (attempts : Nat) (answers : List (Option Sample)) : Prop :=
  answers.head? = some none ∨ answers.length = attempts

instance (attempts : Nat) (answers : List (Option Sample)) : Decidable (Complete attempts answers) :=
  inferInstanceAs (Decidable (_ ∨ _))

theorem not_complete_of_taken {attempts : Nat} {answers : List (Option Sample)} {p : Progress}
    (taken : ({} : Progress).takeAll answers = some p) (fewer : answers.length < attempts) :
    ¬Complete attempts answers :=
  not_or.mpr ⟨Progress.began_of_taken taken, Nat.ne_of_lt fewer⟩

theorem ip_conclude (progress : Progress) (ip : String) (strategy : Strategy) :
    (progress.conclude ip strategy).ip = ip := by
  unfold Progress.conclude
  split <;> rfl

theorem ip_measure (ip : String) (strategy : Strategy) (attempts : Nat) (p : Progress)
    (outcomes : List (Option Sample)) : (measure ip strategy attempts p outcomes).1.ip = ip := by
  induction attempts generalizing p outcomes with
  | zero => exact ip_conclude p ip strategy
  | succ left ih =>
      rw [measure]
      split
      · rfl
      · exact ih _ _

theorem measure_eq_of_taken {p q : Progress} {answers : List (Option Sample)}
    (taken : p.takeAll answers = some q) (ip : String) (strategy : Strategy) :
    measure ip strategy answers.length p answers = (q.conclude ip strategy, q.made) := by
  induction answers generalizing p with
  | nil =>
      cases taken
      rfl
  | cons answer rest ih =>
      obtain ⟨mid, first, later⟩ := Option.bind_eq_some_iff.mp taken
      rw [List.length_cons, measure]
      simp only [List.head?_cons, Option.join_some, first, List.tail_cons]
      exact ih later

theorem measure_of_taken {p q : Progress} {answers : List (Option Sample)}
    (taken : p.takeAll answers = some q) (ip : String) (strategy : Strategy) :
    (measure ip strategy answers.length p answers).1 = q.conclude ip strategy := by
  rw [measure_eq_of_taken taken]

theorem measure_of_lost {answers : List (Option Sample)} (lost : answers.head? = some none)
    {attempts : Nat} (some' : 0 < attempts) (ip : String) (strategy : Strategy) :
    (measure ip strategy attempts {} answers).1 = .givenUp ip := by
  obtain ⟨left, rfl⟩ := Nat.exists_eq_succ_of_ne_zero (Nat.ne_of_gt some')
  rw [measure, lost]
  rfl

theorem combine_eq_none {strategy : Strategy} {latencies : List Int} :
    strategy.combine latencies = none ↔ latencies = [] := by
  cases latencies <;> cases strategy <;> simp [Strategy.combine]

theorem length_latencies (answers : List (Option Sample)) :
    (answers.filterMap (Option.map Sample.latency)).length + answers.count none = answers.length := by
  induction answers with
  | nil => rfl
  | cons answer rest ih =>
      cases answer with
      | none =>
          rw [List.filterMap_cons_none rfl, List.count_cons_self, List.length_cons]
          omega
      | some sample =>
          rw [List.count_cons_of_ne (by simp), List.length_cons, ← ih]
          exact Nat.succ_add ..

variable {answers : List (Option Sample)} {q : Progress}

/-- What attempts come to of which the first succeeded: the latencies are combined, every lost attempt
has its price, and the method is that of the first. -/
theorem conclude_eq {first : Sample} {rest : List (Option Sample)}
    (taken : ({} : Progress).takeAll (some first :: rest) = some q) (ip : String) (strategy : Strategy) :
    let answers := some first :: rest
    ∃ base, strategy.combine (answers.filterMap (Option.map Sample.latency)) = some base ∧
      q.conclude ip strategy =
        { ip, latency := base + answers.count none * lostAttemptPenalty,
          loss := ((Binary64.ofInt (answers.count none)).div (.ofInt answers.length)).mul (.ofInt 100),
          method := first.method } := by
  intro answers
  obtain ⟨base, combined⟩ :
      ∃ base, strategy.combine (answers.filterMap (Option.map Sample.latency)) = some base :=
    Option.ne_none_iff_exists'.mp fun nothing => by simpa [answers] using combine_eq_none.mp nothing
  have parts := length_latencies answers
  have lost : answers.length - (answers.filterMap (Option.map Sample.latency)).length =
      answers.count none := by omega
  have made : q.made = answers.length := (Progress.counted taken).1.trans (Nat.zero_add _)
  have latencies : q.latencies = answers.filterMap (Option.map Sample.latency) :=
    (Progress.counted taken).2
  have method : q.method = some first.method := by
    rw [Progress.takeAll_eq_some taken]
    rfl
  refine ⟨base, combined, ?_⟩
  simp only [Progress.conclude, method, latencies, made, combined, lost]

/-- A measurement whose first attempt succeeded has lost nothing exactly if no attempt was lost, and its
method is that of one of the answers. -/
theorem conclude_of_taken (taken : ({} : Progress).takeAll answers = some q) (some' : answers ≠ [])
    (ip : String) (strategy : Strategy) :
    ((q.conclude ip strategy).loss.isZero = true ↔ none ∉ answers) ∧
      ∃ sample, some sample ∈ answers ∧ (q.conclude ip strategy).method = sample.method := by
  cases answers with
  | nil => exact absurd rfl some'
  | cons answer rest =>
      cases answer with
      | none => cases taken
      | some first =>
          obtain ⟨base, -, shape⟩ := conclude_eq taken ip strategy
          rw [shape]
          refine ⟨?_, first, List.mem_cons_self, rfl⟩
          exact (Binary64.isZero_percent _ _ (Nat.zero_lt_succ _)).trans List.count_eq_zero

theorem method_of_complete {attempts : Nat} (some' : 0 < attempts)
    (complete : Complete attempts answers) (ip : String) (strategy : Strategy) :
    let m := (measure ip strategy attempts {} answers).1
    m.method = .none ∨ ∃ sample, some sample ∈ answers ∧ m.method = sample.method := by
  intro m
  by_cases lost : answers.head? = some none
  · have result : m = .givenUp ip := measure_of_lost lost some' ip strategy
    rw [result]
    exact Or.inl rfl
  · have all := complete.resolve_left lost
    obtain ⟨progress, taken⟩ : ∃ progress, ({} : Progress).takeAll answers = some progress :=
      Option.ne_none_iff_exists'.mp fun nothing => lost (Progress.takeAll_eq_none.mp nothing)
    have result : m = progress.conclude ip strategy := by
      rw [← measure_of_taken taken ip strategy, all]
    have some'' : answers ≠ [] := fun nothing => by
      rw [nothing] at all
      exact absurd all (Nat.ne_of_lt some')
    rw [result]
    exact Or.inr (conclude_of_taken taken some'' ip strategy).2

end Outcomes

namespace Ranker

def resultOf (s : Settings) (ip : String) (answers : List (Option Sample)) : Measurement :=
  (LatencyRank.measure ip s.strategy s.attemptCount {} answers).1

theorem attemptCount_pos (s : Settings) : 0 < s.attemptCount :=
  Nat.lt_of_lt_of_le Nat.one_pos (Nat.le_max_right _ _)

end Ranker

end LatencyRank
