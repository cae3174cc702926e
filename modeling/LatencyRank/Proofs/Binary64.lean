import Mathlib
import LatencyRank.Binary64

/-!
Bounds on rounding. The nearest double to a quotient is not below the power of two at the head of
the quotient, so what is positive and not too small stays positive. Rounding is monotone, and what is
a double already stays as it is; so a quotient that is bounded by a double is rounded to no more.
-/

namespace LatencyRank.Binary64

theorem one_eq : one = 2 ^ 1074 := rfl

theorem limit_eq : limit = 2 ^ 2098 := rfl

theorem one_pos : 0 < one := by
  rw [one_eq]
  exact Nat.two_pow_pos _

theorem limit_pos : 0 < limit := by
  rw [limit_eq]
  exact Nat.two_pow_pos _

theorem nearest_zero (den : Nat) : nearest 0 den = 0 := by
  simp [nearest, roundQuotient]

theorem nearest_le_limit (num den : Nat) : nearest num den ≤ limit := Nat.min_le_right _ _

theorem div_le_roundQuotient (num den : Nat) : num / den ≤ roundQuotient num den := by
  unfold roundQuotient
  dsimp only
  split
  · exact Nat.le_refl _
  · split
    · exact Nat.le_succ _
    · exact Nat.le_add_right _ _

theorem pow_log2_le_nearest {num den : Nat} (some' : num / den ≠ 0) :
    min (2 ^ (num / den).log2) limit ≤ nearest num den := by
  have head : 2 ^ (num / den).log2 ≤ num / den := Nat.log2_self_le some'
  have positive : 0 < spacing (num / den) := Nat.two_pow_pos _
  have split' : 2 ^ (num / den).log2 =
      2 ^ ((num / den).log2 - ((num / den).log2 - 52)) * spacing (num / den) := by
    change _ = _ * 2 ^ ((num / den).log2 - 52)
    rw [← Nat.pow_add]
    congr 1
    omega
  have quotient : 2 ^ ((num / den).log2 - ((num / den).log2 - 52)) ≤
      num / (den * spacing (num / den)) := by
    rw [← Nat.div_div_eq_div_mul]
    refine (Nat.le_div_iff_mul_le positive).mpr ?_
    rw [← split']
    exact head
  have rounded := Nat.mul_le_mul_right (spacing (num / den))
    (quotient.trans (div_le_roundQuotient num (den * spacing (num / den))))
  rw [← split'] at rounded
  unfold nearest
  exact min_le_min_right limit rounded

theorem nearest_pos {num den : Nat} (positive : 0 < den) (enough : den ≤ num) : 0 < nearest num den := by
  have some' : num / den ≠ 0 := Nat.ne_of_gt (Nat.div_pos enough positive)
  refine Nat.lt_of_lt_of_le ?_ (pow_log2_le_nearest some')
  exact lt_min (Nat.two_pow_pos _) limit_pos

theorem one_le_ofInt {n : Nat} (positive : 0 < n) : one ≤ (ofInt n).units := by
  have same : (ofInt n).units = nearest (n * one) 1 := rfl
  have large : one ≤ n * one := Nat.le_mul_of_pos_left one positive
  have some' : n * one / 1 ≠ 0 := by
    rw [Nat.div_one]
    exact Nat.ne_of_gt (Nat.lt_of_lt_of_le one_pos large)
  rw [same]
  refine Nat.le_trans (le_min ?_ ?_) (pow_log2_le_nearest some')
  · rw [one_eq] at large ⊢
    exact Nat.pow_le_pow_right (by decide) ((Nat.le_log2 some').mpr (by rwa [Nat.div_one]))
  · rw [one_eq, limit_eq]
    exact Nat.pow_le_pow_right (by decide) (by decide)

theorem isZero_percent (part whole : Nat) (positive : 0 < whole) :
    ((((ofInt part).div (ofInt whole)).mul (ofInt 100)).isZero = true) ↔ part = 0 := by
  constructor
  · intro zero
    by_contra some'
    have dividend := one_le_ofInt (Nat.pos_of_ne_zero some')
    have divisor := one_le_ofInt positive
    have bound : (ofInt whole).units ≤ limit := nearest_le_limit _ _
    have ones : limit ≤ one * one := by
      rw [limit_eq, one_eq, ← Nat.pow_add]
      exact Nat.pow_le_pow_right (by decide) (by decide)
    have share : 0 < ((ofInt part).div (ofInt whole)).units :=
      nearest_pos (Nat.lt_of_lt_of_le one_pos divisor)
        (bound.trans (ones.trans (Nat.mul_le_mul_right one dividend)))
    have percent : 0 < (((ofInt part).div (ofInt whole)).mul (ofInt 100)).units :=
      nearest_pos one_pos
        ((one_le_ofInt (n := 100) (by decide)).trans (Nat.le_mul_of_pos_left _ share))
    unfold isZero at zero
    rw [beq_iff_eq] at zero
    omega
  · rintro rfl
    have none' : (ofInt ((0 : Nat) : Int)).units = 0 := by
      rw [ofInt, Int.natAbs_natCast, Nat.zero_mul, nearest_zero]
    rw [isZero, beq_iff_eq, mul, div, none', Nat.zero_mul, nearest_zero, Nat.zero_mul, nearest_zero]

section Monotone

/-- The rounded quotient is at most half a step too large or too small, and at a tie it is even. -/
theorem roundQuotient_near (num : Nat) {den : Nat} (positive : 0 < den) :
    2 * (roundQuotient num den * den) ≤ 2 * num + den ∧
      2 * num ≤ 2 * (roundQuotient num den * den) + den ∧
      (2 * (roundQuotient num den * den) = 2 * num + den ∨
        2 * num = 2 * (roundQuotient num den * den) + den → roundQuotient num den % 2 = 0) := by
  have parts := Nat.div_add_mod num den
  have small := Nat.mod_lt num positive
  rw [Nat.mul_comm] at parts
  unfold roundQuotient
  dsimp only
  split
  · refine ⟨?_, ?_, ?_⟩ <;> omega
  · split
    · rw [Nat.add_mul, Nat.one_mul]
      refine ⟨?_, ?_, ?_⟩ <;> omega
    · -- at a tie the parity of the whole part decides
      rcases Nat.mod_two_eq_zero_or_one (num / den) with even | odd
      · rw [even, Nat.add_zero]
        refine ⟨?_, ?_, ?_⟩ <;> omega
      · rw [odd, Nat.add_mul, Nat.one_mul]
        refine ⟨?_, ?_, ?_⟩ <;> omega

theorem roundQuotient_mono {num den num' den' : Nat} (positive : 0 < den) (positive' : 0 < den')
    (le : num * den' ≤ num' * den) : roundQuotient num den ≤ roundQuotient num' den' := by
  obtain ⟨upper, -, tie⟩ := roundQuotient_near num positive
  obtain ⟨-, lower, tie'⟩ := roundQuotient_near num' positive'
  generalize roundQuotient num den = k at upper tie ⊢
  generalize roundQuotient num' den' = k' at lower tie' ⊢
  by_contra less
  obtain ⟨gap, rfl⟩ : ∃ gap, k = k' + 1 + gap := ⟨k - (k' + 1), by omega⟩
  -- brought to the common denominator, the two roundings are apart by no more than one
  have upper' := Nat.mul_le_mul_right den' upper
  have lower' := Nat.mul_le_mul_right den lower
  have whole : 0 < den * den' := Nat.mul_pos positive positive'
  have none' : gap * (den * den') = 0 := by nlinarith
  have zero : gap = 0 := (Nat.mul_eq_zero.mp none').resolve_right (Nat.ne_of_gt whole)
  subst zero
  -- so both are at a tie, and neighbours are not both even
  have even : (k' + 1) % 2 = 0 := tie (Or.inl (Nat.eq_of_mul_eq_mul_right positive' (by nlinarith)))
  have even' : k' % 2 = 0 := tie' (Or.inr (Nat.eq_of_mul_eq_mul_right positive (by nlinarith)))
  omega

theorem roundQuotient_mul (k : Nat) {den : Nat} (positive : 0 < den) :
    roundQuotient (k * den) den = k := by
  simp [roundQuotient, Nat.mul_div_cancel k positive, positive]

theorem spacing_pos (q : Nat) : 0 < spacing q := Nat.two_pow_pos _

theorem roundQuotient_le_pow (num : Nat) {den : Nat} (positive : 0 < den) :
    roundQuotient num (den * spacing (num / den)) ≤
      2 ^ ((num / den).log2 + 1 - ((num / den).log2 - 52)) := by
  let exponent := (num / den).log2 - 52
  have small : num / den < 2 ^ ((num / den).log2 + 1) := Nat.lt_log2_self
  have split' : 2 ^ ((num / den).log2 + 1) =
      2 ^ ((num / den).log2 + 1 - exponent) * spacing (num / den) := by
    change _ = _ * 2 ^ exponent
    rw [← Nat.pow_add]
    congr 1
    omega
  have below : num * 1 ≤ 2 ^ ((num / den).log2 + 1 - exponent) * (den * spacing (num / den)) := by
    rw [Nat.mul_one, Nat.mul_left_comm, ← split', Nat.mul_comm]
    exact Nat.le_of_lt ((Nat.div_lt_iff_lt_mul positive).mp small)
  have rounded := roundQuotient_mono (Nat.mul_pos positive (spacing_pos (num / den))) Nat.one_pos below
  rwa [show roundQuotient (2 ^ ((num / den).log2 + 1 - exponent)) 1 = _ by
    simpa using roundQuotient_mul (2 ^ ((num / den).log2 + 1 - exponent)) Nat.one_pos] at rounded

theorem nearest_le_pow_log2 (num : Nat) {den : Nat} (positive : 0 < den) :
    nearest num den ≤ 2 ^ ((num / den).log2 + 1) := by
  have scaled := Nat.mul_le_mul_right (spacing (num / den)) (roundQuotient_le_pow num positive)
  have split' : 2 ^ ((num / den).log2 + 1 - ((num / den).log2 - 52)) * spacing (num / den) =
      2 ^ ((num / den).log2 + 1) := by
    change _ * 2 ^ _ = _
    rw [← Nat.pow_add]
    congr 1
    omega
  rw [split'] at scaled
  exact (Nat.min_le_left _ _).trans scaled

theorem nearest_mono {num den num' den' : Nat} (positive : 0 < den) (positive' : 0 < den')
    (le : num * den' ≤ num' * den) : nearest num den ≤ nearest num' den' := by
  have quotient : num / den ≤ num' / den' := by
    refine (Nat.le_div_iff_mul_le positive').mpr (Nat.le_of_mul_le_mul_right ?_ positive)
    calc num / den * den' * den = num / den * den * den' := Nat.mul_right_comm ..
      _ ≤ num * den' := Nat.mul_le_mul_right _ (Nat.div_mul_le_self num den)
      _ ≤ num' * den := le
  have heads : (num / den).log2 ≤ (num' / den').log2 := by
    rw [Nat.log2_eq_log_two, Nat.log2_eq_log_two]
    exact Nat.log_mono_right quotient
  by_cases same : (num / den).log2 - 52 = (num' / den').log2 - 52
  · have steps : spacing (num / den) = spacing (num' / den') := by rw [spacing, spacing, same]
    have scaled : num * (den' * spacing (num' / den')) ≤ num' * (den * spacing (num / den)) := by
      rw [steps, ← Nat.mul_assoc, ← Nat.mul_assoc]
      exact Nat.mul_le_mul_right _ le
    have rounded := roundQuotient_mono (Nat.mul_pos positive (spacing_pos (num / den)))
      (Nat.mul_pos positive' (spacing_pos (num' / den'))) scaled
    unfold nearest
    dsimp only
    exact min_le_min_right limit (Nat.mul_le_mul rounded (Nat.le_of_eq steps))
  · -- a power of two stands between the two
    have some' : num' / den' ≠ 0 := by
      intro none'
      rw [none'] at heads same
      simp at heads same
      omega
    refine le_trans (le_min ?_ (nearest_le_limit num den)) (pow_log2_le_nearest some')
    exact (nearest_le_pow_log2 num positive).trans (Nat.pow_le_pow_right (by decide) (by omega))

end Monotone

section Exact

/-- A count of units that is a double. -/
def Exact (units : Nat) : Prop := nearest units 1 = units

theorem exact_of_dvd {units : Nat} (step : spacing units ∣ units) (finite : units ≤ limit) :
    Exact units := by
  obtain ⟨k, same⟩ := step
  have rounded : roundQuotient units (1 * spacing (units / 1)) = k := by
    rw [Nat.one_mul, Nat.div_one]
    nth_rewrite 1 [same]
    rw [Nat.mul_comm]
    exact roundQuotient_mul k (spacing_pos units)
  unfold Exact nearest
  dsimp only
  rw [rounded, Nat.div_one, Nat.mul_comm, ← same]
  exact Nat.min_eq_left finite

theorem nearest_le_of_exact {num den bound : Nat} (positive : 0 < den) (exact' : Exact bound)
    (le : num ≤ bound * den) : nearest num den ≤ bound := by
  have rounded : nearest num den ≤ nearest bound 1 := nearest_mono positive Nat.one_pos (by omega)
  rw [exact'] at rounded
  exact rounded

theorem log2_mul_pow {n : Nat} (positive : 0 < n) (exponent : Nat) :
    (n * 2 ^ exponent).log2 = n.log2 + exponent := by
  induction exponent with
  | zero => simp
  | succ exponent ih =>
    have twice : n * 2 ^ (exponent + 1) = 2 * (n * 2 ^ exponent) := by rw [Nat.pow_succ]; ring
    rw [twice, Nat.log2_two_mul (by positivity), ih]
    omega

theorem spacing_dvd {n : Nat} (few : n < 2 ^ 53) (exponent : Nat) :
    spacing (n * 2 ^ exponent) ∣ n * 2 ^ exponent := by
  rcases Nat.eq_zero_or_pos n with rfl | positive
  · simp
  · have head := log2_mul_pow positive exponent
    have bits : n.log2 < 53 := (Nat.log2_lt (Nat.ne_of_gt positive)).mpr few
    refine Dvd.dvd.trans ?_ (Nat.dvd_mul_left (2 ^ exponent) n)
    change 2 ^ _ ∣ 2 ^ exponent
    rw [head]
    exact Nat.pow_dvd_pow 2 (by omega)

/-- A multiple of a power of two by less than 53 bits is a double. -/
theorem exact_mul_pow {n exponent : Nat} (few : n < 2 ^ 53) (finite : exponent ≤ 2045) :
    Exact (n * 2 ^ exponent) := by
  refine exact_of_dvd (spacing_dvd few exponent) ?_
  calc n * 2 ^ exponent ≤ 2 ^ 53 * 2 ^ 2045 :=
        Nat.mul_le_mul (Nat.le_of_lt few) (Nat.pow_le_pow_right (by decide) finite)
    _ = limit := by rw [limit_eq, ← Nat.pow_add]

theorem exact_mul_one {n : Nat} (few : n < 2 ^ 53) : Exact (n * one) := by
  rw [one_eq]
  exact exact_mul_pow few (by decide)

theorem units_ofInt {n : Nat} (few : n < 2 ^ 53) : (ofInt n).units = n * one := exact_mul_one few

theorem units_mono {m n : Nat} (le : m ≤ n) : (ofInt m).units ≤ (ofInt n).units := by
  have scaled := Nat.mul_le_mul_right one le
  exact nearest_mono Nat.one_pos Nat.one_pos (by simpa using scaled)

theorem exact_zero : Exact 0 := nearest_zero 1

theorem exact_limit : Exact limit := by
  have head : Exact (1 * 2 ^ 2098) := by
    refine exact_of_dvd (spacing_dvd (by decide) 2098) ?_
    rw [Nat.one_mul, limit_eq]
  rwa [Nat.one_mul, ← limit_eq] at head

/-- What was rounded once is a double. -/
theorem exact_nearest (num : Nat) {den : Nat} (positive : 0 < den) : Exact (nearest num den) := by
  rcases Nat.le_total limit (roundQuotient num (den * spacing (num / den)) * spacing (num / den))
    with large | finite
  · have same : nearest num den = limit := Nat.min_eq_right large
    rw [same]
    exact exact_limit
  · have same : nearest num den =
        roundQuotient num (den * spacing (num / den)) * 2 ^ ((num / den).log2 - 52) :=
      Nat.min_eq_left finite
    have most := (roundQuotient_le_pow num positive).trans
      (Nat.pow_le_pow_right (by decide) (show _ ≤ 53 by omega))
    rw [same]
    refine exact_of_dvd ?_ finite
    rcases Nat.lt_or_eq_of_le most with few | head
    · exact spacing_dvd few _
    · -- rounded up to the head of the next binade
      rw [head, ← Nat.pow_add, ← Nat.one_mul (2 ^ _)]
      exact spacing_dvd (by decide) _

theorem nearest_congr {num den num' den' : Nat} (positive : 0 < den) (positive' : 0 < den')
    (same : num * den' = num' * den) : nearest num den = nearest num' den' :=
  Nat.le_antisymm (nearest_mono positive positive' (Nat.le_of_eq same))
    (nearest_mono positive' positive (Nat.le_of_eq same.symm))

end Exact

section Whole

theorem exact_one : Exact one := by
  have unit := exact_mul_one (n := 1) (by decide)
  rwa [Nat.one_mul] at unit

theorem negative_ofInt (n : Nat) : (ofInt n).negative = false :=
  decide_eq_false (Int.not_lt.mpr (Int.natCast_nonneg n))

theorem negative_mul {x y : Binary64} (left : x.negative = false) (right : y.negative = false) :
    (x.mul y).negative = false := by
  rw [mul, left, right]
  rfl

theorem negative_share (part whole : Nat) : ((ofInt part).div (ofInt whole)).negative = false := by
  rw [div, negative_ofInt, negative_ofInt]
  rfl

theorem share_le_one {part whole : Nat} (positive : 0 < whole) (le : part ≤ whole) :
    ((ofInt part).div (ofInt whole)).units ≤ one := by
  have divisor : 0 < (ofInt whole).units := Nat.lt_of_lt_of_le one_pos (one_le_ofInt positive)
  refine nearest_le_of_exact divisor exact_one ?_
  rw [Nat.mul_comm]
  exact Nat.mul_le_mul_left one (units_mono le)

theorem units_one : (ofInt 1).units = one := by
  have whole := units_ofInt (n := 1) (by decide)
  rwa [Nat.one_mul] at whole

theorem one_sub_eq {share : Binary64} (positive : share.negative = false)
    (le : share.units ≤ one) : (ofInt 1).sub share = ⟨false, nearest (one - share.units) 1⟩ := by
  have sign : (ofInt 1).negative = false := rfl
  have rest : (ofInt 1).signed - share.signed = ((one - share.units : Nat) : Int) := by
    simp only [signed, positive, sign, Bool.false_eq_true, if_false, units_one]
    omega
  have whole (n : Nat) : (if (n : Int) = 0 then false else decide ((n : Int) < 0)) = false := by
    split
    · rfl
    · exact decide_eq_false (Int.not_lt.mpr (Int.natCast_nonneg _))
  unfold sub
  dsimp only
  rw [rest, sign, Bool.false_and, whole, Int.natAbs_natCast]

theorem one_sub_bounds {share : Binary64} (positive : share.negative = false)
    (le : share.units ≤ one) :
    ((ofInt 1).sub share).negative = false ∧ ((ofInt 1).sub share).units ≤ one := by
  rw [one_sub_eq positive le]
  exact ⟨rfl, nearest_le_of_exact Nat.one_pos exact_one (by omega)⟩

theorem mul_le {x y : Binary64} {m n : Nat} (few : m * n < 2 ^ 53) (left : x.units ≤ m * one)
    (right : y.units ≤ n * one) : (x.mul y).units ≤ m * n * one := by
  refine nearest_le_of_exact one_pos (exact_mul_one few) ?_
  calc x.units * y.units ≤ m * one * (n * one) := Nat.mul_le_mul left right
    _ = m * n * one * one := by ring

variable {x : Binary64} {n : Nat}

theorem inRange_of_few (few : n < 2 ^ 53) : Signed.InRange n := by
  simp only [Signed.InRange, Signed.lowest, Signed.highest]
  omega

theorem truncate_eq (positive : x.negative = false) (few : x.units / one < 2 ^ 53) :
    x.truncate = ((x.units / one : Nat) : Int) := by
  rw [truncate, positive]
  exact Signed.clamp_of_inRange (inRange_of_few few)

theorem round_eq (positive : x.negative = false) (few : (2 * x.units + one) / (2 * one) < 2 ^ 53) :
    x.round = (((2 * x.units + one) / (2 * one) : Nat) : Int) := by
  have inside := Signed.clamp_of_inRange (inRange_of_few few)
  push_cast at inside
  rw [round, positive]
  push_cast
  exact inside

theorem truncate_bounds (few : n < 2 ^ 53) (positive : x.negative = false) (le : x.units ≤ n * one) :
    0 ≤ x.truncate ∧ x.truncate ≤ n := by
  have whole : x.units / one ≤ n := Nat.div_le_of_le_mul (by rwa [Nat.mul_comm])
  rw [truncate_eq positive (Nat.lt_of_le_of_lt whole few)]
  exact ⟨Int.natCast_nonneg _, Int.ofNat_le.mpr whole⟩

theorem round_bounds (few : n < 2 ^ 53) (positive : x.negative = false) (le : x.units ≤ n * one) :
    0 ≤ x.round ∧ x.round ≤ n := by
  have whole : (2 * x.units + one) / (2 * one) ≤ n := by
    refine Nat.le_of_lt_succ (Nat.div_lt_of_lt_mul ?_)
    have step : 2 * one * (n + 1) = 2 * (n * one) + one + one := by ring
    have some' := one_pos
    rw [step]
    omega
  rw [round_eq positive (Nat.lt_of_le_of_lt whole few)]
  exact ⟨Int.natCast_nonneg _, Int.ofNat_le.mpr whole⟩

theorem round_nonneg (positive : x.negative = false) : 0 ≤ x.round := by
  have whole : (0 : Int) ≤ (2 * x.units + one) / (2 * one) := by positivity
  rw [round, positive]
  simp only [Bool.false_eq_true, if_false, Signed.clamp, Signed.lowest, Signed.highest]
  omega

end Whole

section Order

variable {x y : Binary64}

theorem share_mono {part part' whole : Nat} (positive : 0 < whole) (le : part ≤ part') :
    ((ofInt part).div (ofInt whole)).units ≤ ((ofInt part').div (ofInt whole)).units := by
  have divisor : 0 < (ofInt whole).units := Nat.lt_of_lt_of_le one_pos (one_le_ofInt positive)
  refine nearest_mono divisor divisor (Nat.mul_le_mul_right _ ?_)
  exact Nat.mul_le_mul_right one (units_mono le)

theorem share_zero (whole : Nat) : ((ofInt (0 : Nat)).div (ofInt whole)).units = 0 := by
  have none' : (ofInt ((0 : Nat) : Int)).units = 0 :=
    (units_ofInt (n := 0) (by decide)).trans (Nat.zero_mul one)
  rw [div, none', Nat.zero_mul, nearest_zero]

theorem one_sub_antitone (positive : x.negative = false) (positive' : y.negative = false)
    (le : x.units ≤ y.units) (share : y.units ≤ one) :
    ((ofInt 1).sub y).units ≤ ((ofInt 1).sub x).units := by
  rw [one_sub_eq positive (le.trans share), one_sub_eq positive' share]
  exact nearest_mono Nat.one_pos Nat.one_pos (by omega)

theorem mul_mono {x' y' : Binary64} (left : x.units ≤ x'.units) (right : y.units ≤ y'.units) :
    (x.mul y).units ≤ (x'.mul y').units :=
  nearest_mono one_pos one_pos (Nat.mul_le_mul_right one (Nat.mul_le_mul left right))

theorem mul_one {n : Nat} (few : n < 2 ^ 53) (unit : y.units = one) :
    ((ofInt n).mul y).units = n * one := by
  rw [mul, units_ofInt few, unit]
  exact (nearest_congr one_pos Nat.one_pos (Nat.mul_one _)).trans (exact_mul_one few)

theorem ofInt_mul_ofInt {m n : Nat} (few : m < 2 ^ 53) (few' : n < 2 ^ 53) (product : m * n < 2 ^ 53) :
    (ofInt m).mul (ofInt n) = ofInt (m * n : Nat) := by
  have units : ((ofInt m).mul (ofInt n)).units = m * n * one := by
    rw [mul, units_ofInt few, units_ofInt few']
    refine (nearest_congr one_pos Nat.one_pos ?_).trans (exact_mul_one product)
    ring
  have sign := negative_mul (negative_ofInt m) (negative_ofInt n)
  rw [← units_ofInt product] at units
  rw [← negative_ofInt (m * n)] at sign
  exact congrArg₂ mk sign units

theorem round_ofInt {n : Nat} (few : n < 2 ^ 53) : (ofInt n).round = n := by
  have whole : (2 * (ofInt n).units + one) / (2 * one) = n := by
    rw [units_ofInt few]
    have positive := one_pos
    refine Nat.div_eq_of_lt_le ?_ ?_ <;> nlinarith
  rw [round_eq (negative_ofInt n) (whole.symm ▸ few), whole]

theorem truncate_mono (positive : x.negative = false) (positive' : y.negative = false)
    (le : x.units ≤ y.units) : x.truncate ≤ y.truncate := by
  rw [truncate, truncate, positive, positive']
  exact Signed.clamp_le_clamp (Int.ofNat_le.mpr (Nat.div_le_div_right le))

theorem truncate_of_positive (positive : x.negative = false) :
    x.truncate = Signed.clamp ((x.units / one : Nat) : Int) := by
  rw [truncate, positive]
  rfl

theorem truncate_of_negative (sign : x.negative = true) :
    x.truncate = Signed.clamp (-((x.units / one : Nat) : Int)) := by
  rw [truncate, sign]
  rfl

theorem share_between {part whole : Nat} (positive : 0 < whole) (le : part ≤ whole) :
    zero ≤ (ofInt part).div (ofInt whole) ∧ (ofInt part).div (ofInt whole) ≤ ofInt 1 := by
  have sign : (ofInt 1).negative = false := rfl
  have most := share_le_one positive le
  constructor
  · change zero.signed ≤ signed _
    rw [signed, signed, negative_share]
    exact Int.natCast_nonneg _
  · change signed _ ≤ signed _
    rw [signed, signed, negative_share, sign, units_one]
    exact Int.ofNat_le.mpr most

end Order

section Signs

variable {x y factor : Binary64}

theorem signed_of_positive (sign : x.negative = false) : x.signed = (x.units : Int) := by
  rw [signed, sign]
  rfl

theorem signed_of_negative (sign : x.negative = true) : x.signed = -(x.units : Int) := by
  rw [signed, sign]
  rfl

/-- The order of two numbers, by their signs. A number without a sign is below one with a sign only
if both are zero. -/
theorem le_iff_units : x ≤ y ↔
    (x.negative = false → y.negative = false → x.units ≤ y.units) ∧
      (x.negative = true → y.negative = true → y.units ≤ x.units) ∧
      (x.negative = false → y.negative = true → x.units = 0 ∧ y.units = 0) := by
  change x.signed ≤ y.signed ↔ _
  cases left : x.negative <;> cases right : y.negative
  · rw [signed_of_positive left, signed_of_positive right]
    simp
  · rw [signed_of_positive left, signed_of_negative right]
    simp only [reduceCtorEq, true_imp_iff, true_and, IsEmpty.forall_iff]
    omega
  · rw [signed_of_negative left, signed_of_positive right]
    simp only [reduceCtorEq, false_imp_iff, true_imp_iff, and_self, iff_true]
    omega
  · rw [signed_of_negative left, signed_of_negative right]
    simp

theorem negative_mul_of_positive (positive : factor.negative = false) :
    (x.mul factor).negative = x.negative := by
  rw [mul, positive, Bool.bne_false]

/-- A product with what is not negative keeps the order, also where it is rounded or infinite. -/
theorem mul_le_mul_of_positive (positive : factor.negative = false) (le : x ≤ y) :
    x.mul factor ≤ y.mul factor := by
  obtain ⟨above, below, apart⟩ := le_iff_units.mp le
  rw [le_iff_units, negative_mul_of_positive positive, negative_mul_of_positive positive]
  refine ⟨fun left right => ?_, fun left right => ?_, fun left right => ?_⟩
  · exact mul_mono (above left right) (Nat.le_refl _)
  · exact mul_mono (below left right) (Nat.le_refl _)
  · obtain ⟨none', none''⟩ := apart left right
    simp only [mul, none', none'', Nat.zero_mul, nearest_zero, and_self]

/-- The whole number nearest to a magnitude, a half away from zero. -/
def nearestWhole (units : Nat) : Nat := (2 * units + one) / (2 * one)

theorem nearestWhole_mono {m n : Nat} (le : m ≤ n) : nearestWhole m ≤ nearestWhole n :=
  Nat.div_le_div_right (Nat.add_le_add_right (Nat.mul_le_mul_left 2 le) one)

theorem nearestWhole_zero : nearestWhole 0 = 0 := by
  have some' := one_pos
  exact Nat.div_eq_of_lt (by omega)

theorem round_of_positive (sign : x.negative = false) :
    x.round = Signed.clamp (nearestWhole x.units : Int) := by
  simp only [round, sign, Bool.false_eq_true, if_false, nearestWhole]
  push_cast
  with_reducible rfl

theorem round_of_negative (sign : x.negative = true) :
    x.round = Signed.clamp (-(nearestWhole x.units : Int)) := by
  simp only [round, sign, if_true, nearestWhole]
  push_cast
  with_reducible rfl

theorem round_mono (le : x ≤ y) : x.round ≤ y.round := by
  obtain ⟨above, below, apart⟩ := le_iff_units.mp le
  cases left : x.negative <;> cases right : y.negative
  · rw [round_of_positive left, round_of_positive right]
    exact Signed.clamp_le_clamp (Int.ofNat_le.mpr (nearestWhole_mono (above left right)))
  · obtain ⟨none', none''⟩ := apart left right
    rw [round_of_positive left, round_of_negative right, none', none'', nearestWhole_zero]
    exact Int.le_refl _
  · rw [round_of_negative left, round_of_positive right]
    exact Signed.clamp_le_clamp (by omega)
  · rw [round_of_negative left, round_of_negative right]
    exact Signed.clamp_le_clamp
      (Int.neg_le_neg (Int.ofNat_le.mpr (nearestWhole_mono (below left right))))

end Signs

section Partial

theorem one_eq_steps : one = 2 ^ 32 * 2 ^ 1042 := by
  rw [one_eq, ← Nat.pow_add]

theorem share_le_of_lt {part whole : Nat} (less : part < whole) (few : whole ≤ 2 ^ 32) :
    ((ofInt part).div (ofInt whole)).units ≤ (2 ^ 32 - 1) * 2 ^ 1042 := by
  have scaled : part * 2 ^ 32 ≤ (2 ^ 32 - 1) * whole := by omega
  have part' : (ofInt part).units = part * one := units_ofInt (by omega)
  have whole' : (ofInt whole).units = whole * one := units_ofInt (by omega)
  have divisor : 0 < whole * one := Nat.mul_pos (by omega) one_pos
  have steps := one_eq_steps
  rw [div, part', whole']
  refine nearest_le_of_exact divisor (exact_mul_pow (by decide) (by decide)) ?_
  generalize 2 ^ 1042 = step at steps ⊢
  calc part * one * one = part * 2 ^ 32 * (step * one) := by
        nth_rewrite 1 [steps]
        ring
    _ ≤ (2 ^ 32 - 1) * whole * (step * one) := Nat.mul_le_mul_right _ scaled
    _ = (2 ^ 32 - 1) * step * (whole * one) := by ring

theorem percent_lt {part whole : Nat} (less : part < whole) (few : whole ≤ 2 ^ 32) :
    ((ofInt part).div (ofInt whole)).mul (ofInt 100) < ofInt 100 := by
  have hundred : (ofInt 100).units = 100 * one := units_ofInt (n := 100) (by decide)
  have sign : (((ofInt part).div (ofInt whole)).mul (ofInt 100)).negative = false :=
    negative_mul (negative_share part whole) rfl
  have sign' : (ofInt 100).negative = false := rfl
  have share := Nat.mul_le_mul_right (100 * one) (share_le_of_lt less few)
  have exact' : Exact (100 * (2 ^ 32 - 1) * 2 ^ 1042) := exact_mul_pow (by decide) (by decide)
  have steps := one_eq_steps
  have some' := one_pos
  generalize 2 ^ 1042 = step at share exact' steps
  have most : (((ofInt part).div (ofInt whole)).mul (ofInt 100)).units ≤ 100 * (2 ^ 32 - 1) * step := by
    refine nearest_le_of_exact one_pos exact' ?_
    rw [hundred]
    exact share.trans (Nat.le_of_eq (by ring))
  change signed _ < signed _
  rw [signed, signed, sign, sign', hundred]
  exact Int.ofNat_lt.mpr (by omega)

end Partial

section Doubles

structure IsDouble (x : Binary64) : Prop where
  exact' : Exact x.units
  finite : x.units < limit

variable {x : Binary64}

theorem isDouble_of_units {bound : Nat} (double : Exact x.units) (le : x.units ≤ bound * one)
    (few : bound < 2 ^ 53) : x.IsDouble := by
  refine ⟨double, Nat.lt_of_le_of_lt le ?_⟩
  calc bound * one < 2 ^ 53 * one := Nat.mul_lt_mul_of_pos_right few one_pos
    _ ≤ 2 ^ 1024 * 2 ^ 1074 := Nat.mul_le_mul (Nat.pow_le_pow_right (by decide) (by decide))
        (Nat.le_of_eq one_eq)
    _ = limit := by rw [limit_eq, ← Nat.pow_add]

theorem isDouble_zero : zero.IsDouble := ⟨exact_zero, limit_pos⟩

theorem isDouble_share {part whole : Nat} (few : part < 2 ^ 53) (some' : 0 < whole) :
    ((ofInt part).div (ofInt whole)).IsDouble := by
  have divisor : one ≤ (ofInt whole).units := one_le_ofInt some'
  have positive : 0 < (ofInt whole).units := Nat.lt_of_lt_of_le one_pos divisor
  refine isDouble_of_units (exact_nearest _ positive) ?_ few
  refine nearest_le_of_exact positive (exact_mul_one few) ?_
  rw [units_ofInt few]
  exact Nat.mul_le_mul_left _ divisor

end Doubles

end LatencyRank.Binary64
