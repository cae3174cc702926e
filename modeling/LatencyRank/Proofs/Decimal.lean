import Mathlib
import LatencyRank.Decimal
import LatencyRank.Proofs.Binary64

/-!
The decimal notation of a double loses nothing: the shortest decimal rounds to the double that it was
made from. The text of a decimal may spell its zeros out, which moves the exponent into the digits and
does not change the double either.
-/

namespace LatencyRank.Decimal

open Binary64 (one limit Exact nearest_congr)

section Width

theorem toDigits_mul_ten {n : Nat} (positive : 0 < n) :
    Nat.toDigits 10 (n * 10) = Nat.toDigits 10 n ++ ['0'] := by
  have shift := Nat.toDigits_append_toDigits (b := 10) (d := 0) (by decide) positive (by decide)
  rw [Nat.mul_comm, ← Nat.add_zero (10 * n), ← shift, Nat.toDigits_zero]

theorem toDigits_mul_pow {n : Nat} (positive : 0 < n) (k : Nat) :
    Nat.toDigits 10 (n * 10 ^ k) = Nat.toDigits 10 n ++ zeros k := by
  induction k with
  | zero => rw [Nat.pow_zero, Nat.mul_one, zeros, List.replicate_zero, List.append_nil]
  | succ k ih =>
    rw [Nat.pow_succ, ← Nat.mul_assoc, toDigits_mul_ten (by positivity), ih, zeros, zeros,
      List.replicate_succ', List.append_assoc]

theorem width_mul_pow {n : Nat} (positive : 0 < n) (k : Nat) : width (n * 10 ^ k) = width n + k := by
  rw [width, toDigits_mul_pow positive, List.length_append, zeros, List.length_replicate, width]

theorem width_le {n k : Nat} (some' : 0 < k) (small : n < 10 ^ k) : width n ≤ k :=
  (Nat.length_toDigits_le_iff (by decide) some').mpr small

theorem lt_width {n k : Nat} (some' : 0 < k) (large : 10 ^ k ≤ n) : k < width n := by
  by_contra short
  exact absurd ((Nat.length_toDigits_le_iff (by decide) some').mp (Nat.not_lt.mp short))
    (Nat.not_lt.mpr large)

end Width

section Rounding

variable {negative : Bool} {digits : Nat} {exponent : Int}

theorem toBinary64_zero (negative : Bool) (exponent : Int) :
    (⟨negative, 0, exponent⟩ : Decimal).toBinary64 = ⟨negative, 0⟩ := by
  simp [toBinary64]

theorem toBinary64_eq (some' : digits ≠ 0) (low : -330 ≤ exponent + width digits)
    (high : exponent + width digits ≤ 310) :
    (⟨negative, digits, exponent⟩ : Decimal).toBinary64 =
      ⟨negative, Binary64.nearest (digits * 10 ^ exponent.toNat * one) (10 ^ (-exponent).toNat)⟩ := by
  unfold toBinary64
  dsimp only
  rw [if_neg (by omega), if_neg (by omega)]
  rfl

theorem exact_toBinary64 (d : Decimal) : Exact d.toBinary64.units := by
  unfold toBinary64
  dsimp only
  split
  · exact Binary64.exact_zero
  · split
    · dsimp only
      exact Binary64.exact_limit
    · exact Binary64.exact_nearest _ (Nat.pow_pos (by decide))

end Rounding

section Reread

/-- The decimal that a text of `layout` spells: zero has one place, and so has a number whose zeros are
written out before the point. -/
def reread (d : Decimal) : Decimal :=
  if d.digits = 0 then ⟨d.negative, 0, -1⟩
  else if 0 ≤ d.exponent ∧ d.exponent + width d.digits ≤ layout.bound then
    ⟨d.negative, d.digits * 10 ^ (d.exponent.toNat + 1), -1⟩
  else d

theorem toBinary64_reread (d : Decimal) : d.reread.toBinary64 = d.toBinary64 := by
  obtain ⟨negative, digits, exponent⟩ := d
  unfold reread
  dsimp only
  split
  · rename_i none'
    subst none'
    rw [toBinary64_zero, toBinary64_zero]
  · rename_i some'
    split
    · rename_i spelled
      obtain ⟨whole, short⟩ := spelled
      obtain ⟨k, rfl⟩ := Int.eq_ofNat_of_zero_le whole
      have short' : (k : Int) + width digits ≤ 16 := short
      have positive : 0 < digits := Nat.pos_of_ne_zero some'
      have wide : (width (digits * 10 ^ (k + 1)) : Int) = width digits + k + 1 := by
        rw [width_mul_pow positive]
        push_cast
        ring
      rw [Int.toNat_natCast, toBinary64_eq (by positivity) (by omega) (by omega),
        toBinary64_eq some' (by omega) (by omega), Int.toNat_natCast]
      refine congrArg (Binary64.mk negative) (nearest_congr (by positivity) (by positivity) ?_)
      have ten : (- -1 : Int).toNat = 1 := rfl
      have unit : (-1 : Int).toNat = 0 := rfl
      have none' : (-(k : Int)).toNat = 0 := by omega
      rw [ten, unit, none']
      ring
    · rfl

end Reread

section Shortest

theorem strip_eq (fuel digits : Nat) (exponent : Int) :
    ∃ rest moved, moved ≤ fuel ∧ digits = rest * 10 ^ moved ∧
      strip fuel digits exponent = (rest, exponent + (moved : Int)) := by
  induction fuel generalizing digits exponent with
  | zero => exact ⟨digits, 0, Nat.le_refl _, by simp, by simp [strip]⟩
  | succ fuel ih =>
    rw [strip]
    split
    · rename_i more
      obtain ⟨rest, moved, le, same, shifted⟩ := ih (digits / 10) (exponent + 1)
      have tens : digits = digits / 10 * 10 := by omega
      refine ⟨rest, moved + 1, Nat.succ_le_succ le, ?_, ?_⟩
      · rw [Nat.pow_succ, ← Nat.mul_assoc, ← same]
        exact tens
      · rw [shifted]
        congr 1
        push_cast
        ring
    · exact ⟨digits, 0, Nat.zero_le _, by simp, by simp⟩

/-- A decimal whose value is a double is read as that double. -/
theorem toBinary64_of_exact {negative : Bool} {units digits : Nat} {exponent : Int}
    (some' : digits ≠ 0) (low : -330 ≤ exponent + width digits) (high : exponent + width digits ≤ 310)
    (double : Exact units)
    (same : digits * 10 ^ exponent.toNat * one = units * 10 ^ (-exponent).toNat) :
    (⟨negative, digits, exponent⟩ : Decimal).toBinary64 = ⟨negative, units⟩ := by
  rw [toBinary64_eq some' low high, nearest_congr (by positivity) Nat.one_pos
    (by rw [Nat.mul_one]; exact same), double]

theorem mul_pow_two_of_fives {units digits places moved : Nat} (le : moved ≤ places)
    (same : units * 5 ^ places = digits * 10 ^ moved) :
    digits * 2 ^ places = units * 10 ^ (places - moved) := by
  refine Nat.eq_of_mul_eq_mul_right (show 0 < 10 ^ moved by positivity) ?_
  calc digits * 2 ^ places * 10 ^ moved = digits * 10 ^ moved * 2 ^ places := Nat.mul_right_comm ..
    _ = units * 10 ^ places := by rw [← same, Nat.mul_assoc, ← Nat.mul_pow]
    _ = units * 10 ^ (places - moved) * 10 ^ moved := by
      rw [Nat.mul_assoc, ← Nat.pow_add, Nat.sub_add_cancel le]

variable {units places : Nat}

theorem toBinary64_stripped (negative : Bool) (some' : units ≠ 0) (double : Exact units)
    (unit : one = 2 ^ places) {exponent : Int} (last : exponent = -(places : Int))
    (low : places ≤ 330 + width (units * 5 ^ places))
    (high : width (units * 5 ^ places) ≤ 310 + places) :
    (stripped places negative (units * 5 ^ places) exponent).toBinary64 = ⟨negative, units⟩ := by
  subst last
  obtain ⟨digits, moved, le, same, shifted⟩ := strip_eq places (units * 5 ^ places) (-(places : Int))
  have positive : 0 < digits := by
    refine Nat.pos_of_ne_zero fun none' => ?_
    subst none'
    exact Nat.mul_ne_zero some' (by positivity) (same.trans (Nat.zero_mul _))
  rw [same, width_mul_pow positive] at low high
  have whole : (-(places : Int) + moved).toNat = 0 := by omega
  have rest : (-(-(places : Int) + moved)).toNat = places - moved := by omega
  rw [stripped, shifted]
  refine toBinary64_of_exact (Nat.ne_of_gt positive) (by omega) (by omega) double ?_
  rw [whole, rest, Nat.pow_zero, Nat.mul_one, unit]
  exact mul_pow_two_of_fives le same

theorem mul_fives_lt {bits : Nat} (head : bits = 1024 + places) (small : units < 2 ^ bits) :
    units * 5 ^ places < 10 ^ (309 + places) := by
  subst head
  calc units * 5 ^ places < 2 ^ (1024 + places) * 5 ^ places :=
        Nat.mul_lt_mul_of_pos_right small (by positivity)
    _ = 2 ^ 1024 * 10 ^ places := by rw [Nat.pow_add, Nat.mul_assoc, ← Nat.mul_pow]
    _ ≤ 10 ^ 309 * 10 ^ places := Nat.mul_le_mul_right _ (by decide +kernel)
    _ = 10 ^ (309 + places) := (Nat.pow_add ..).symm

theorem pow_le_fives : 10 ^ 750 ≤ 5 ^ 1074 := by decide +kernel

theorem toBinary64_exact (negative : Bool) (some' : units ≠ 0) (double : Exact units)
    (finite : units < limit) : (exact negative units).toBinary64 = ⟨negative, units⟩ := by
  rw [Binary64.limit_eq] at finite
  have high := width_le (by decide) (@mul_fives_lt units 1074 _ rfl finite)
  have low := lt_width (by decide)
    (pow_le_fives.trans (Nat.le_mul_of_pos_left _ (Nat.pos_of_ne_zero some')))
  rw [exact, Nat.pow_eq]
  exact toBinary64_stripped negative some' double Binary64.one_eq rfl (by omega) (by omega)

/-- The shortest decimal of a double denotes the double. -/
theorem toBinary64_shortest {x : Binary64} (double : x.IsDouble) : (shortest x).toBinary64 = x := by
  by_cases none' : x.units = 0
  · rw [shortest, if_pos none', toBinary64_zero, ← none']
  · rw [shortest, if_neg none']
    cases found : (candidates x).find? fun d => d.toBinary64 = x with
    | some d =>
      have reads := List.find?_some found
      dsimp only at reads ⊢
      exact of_decide_eq_true reads
    | none =>
      dsimp only
      exact toBinary64_exact x.negative none' double.exact' double.finite

end Shortest

end LatencyRank.Decimal
