import Mathlib
import LatencyRank.Proofs.Decimal
import LatencyRank.Proofs.Json.Quoted

/-!
What is written as a number is read back as a number: an integer as itself, a decimal as the one that
its text spells. A numeral goes through its phases with one run of digits in each.
-/

namespace LatencyRank.Json

def Numeral.through (n : Numeral) (text : List Char) : Option Numeral := text.foldlM Numeral.next n

def Digits (text : List Char) : Prop := ∀ c ∈ text, c.isDigit = true

section Runs

variable {n n' : Numeral} {c : Char} {text rest : List Char}

theorem numeral_trans (first : n.through text = some n') :
    n.through (text ++ rest) = n'.through rest := by
  unfold Numeral.through at first ⊢
  rw [List.foldlM_append, first]
  rfl

theorem numeral_step (first : n.next c = some n') : n.through (c :: rest) = n'.through rest := by
  unfold Numeral.through
  rw [List.foldlM_cons, first]
  rfl

theorem digit?_of_isDigit (digit : c.isDigit = true) : digit? c = some (c.toNat - '0'.toNat) := by
  have bounds : '0' ≤ c ∧ c ≤ '9' := by simpa [Char.isDigit, Char.le_def] using digit
  rw [digit?, if_pos bounds]

theorem Digits.tail (digits : Digits (c :: rest)) : c.isDigit = true ∧ Digits rest :=
  ⟨digits c List.mem_cons_self, fun other member => digits other (List.mem_cons_of_mem c member)⟩

theorem Digits.append (digits : Digits text) (digits' : Digits rest) : Digits (text ++ rest) :=
  fun c member => (List.mem_append.mp member).elim (digits c) (digits' c)

theorem digits_toDigits (n : Nat) : Digits (Nat.toDigits 10 n) := fun _ member =>
  Nat.isDigit_of_mem_toDigits (by decide) (by decide) member

theorem digits_zeros (n : Nat) : Digits (Decimal.zeros n) := by
  intro c member
  rw [List.eq_of_mem_replicate member]
  rfl

theorem through_run (shape : Nat → Nat → Numeral)
    (takes : ∀ value count c, c.isDigit = true →
      (shape value count).next c = some (shape (10 * value + (c.toNat - '0'.toNat)) (count + 1)))
    (digits : Digits text) (value count : Nat) :
    (shape value count).through text =
      some (shape (Nat.ofDigitChars 10 text value) (count + text.length)) := by
  induction text generalizing value count with
  | nil => rfl
  | cons c rest ih =>
    obtain ⟨digit, digits⟩ := digits.tail
    rw [numeral_step (takes value count c digit), ih digits, Nat.ofDigitChars_cons, List.length_cons]
    congr 2
    omega

end Runs

section Phases

variable (negative : Bool) {c : Char} {text rest : List Char}

theorem through_whole (digits : Digits text) (value : Nat) :
    (⟨.whole, negative, value, 0, false, 0⟩ : Numeral).through text =
      some ⟨.whole, negative, Nat.ofDigitChars 10 text value, 0, false, 0⟩ :=
  through_run (fun value _ => ⟨.whole, negative, value, 0, false, 0⟩)
    (fun value count c digit => by simp [Numeral.next, digit?_of_isDigit digit]) digits value 0

theorem through_places (digits : Digits text) (value places : Nat) :
    (⟨.fraction, negative, value, places, false, 0⟩ : Numeral).through text =
      some ⟨.fraction, negative, Nat.ofDigitChars 10 text value, places + text.length, false, 0⟩ :=
  through_run (fun value places => ⟨.fraction, negative, value, places, false, 0⟩)
    (fun value places c digit => by simp [Numeral.next, digit?_of_isDigit digit]) digits value places

theorem through_power (digits : Digits text) (value places : Nat) (below : Bool) (power : Nat) :
    (⟨.power, negative, value, places, below, power⟩ : Numeral).through text =
      some ⟨.power, negative, value, places, below, Nat.ofDigitChars 10 text power⟩ :=
  through_run (fun power _ => ⟨.power, negative, value, places, below, power⟩)
    (fun power count c digit => by simp [Numeral.next, digit?_of_isDigit digit]) digits power 0

theorem opened_through_whole (digits : Digits (c :: rest)) (head : c ≠ '0') :
    (Numeral.opened negative).through (c :: rest) =
      some ⟨.whole, negative, Nat.ofDigitChars 10 (c :: rest) 0, 0, false, 0⟩ := by
  obtain ⟨digit, digits⟩ := digits.tail
  have value : c.toNat - '0'.toNat ≠ 0 := by
    have bounds : '0'.toNat ≤ c.toNat := by
      have low : '0' ≤ c := by
        have both : '0' ≤ c ∧ c ≤ '9' := by simpa [Char.isDigit, Char.le_def] using digit
        exact both.1
      exact low
    have other : c.toNat ≠ '0'.toNat := fun same => head (Char.toNat_inj.mp same)
    omega
  have first : (Numeral.opened negative).next c =
      some ⟨.whole, negative, c.toNat - '0'.toNat, 0, false, 0⟩ := by
    simp only [Numeral.next, Numeral.opened, digit?_of_isDigit digit, if_neg value]
  rw [numeral_step first, through_whole negative digits, Nat.ofDigitChars_cons]
  simp

theorem opened_through_zero : (Numeral.opened negative).through ['0'] =
    some ⟨.zero, negative, 0, 0, false, 0⟩ := rfl

theorem through_fraction {phase : NumeralPhase} (whole : phase = .zero ∨ phase = .whole) (value : Nat)
    (digits : Digits text) (some' : text ≠ []) :
    (⟨phase, negative, value, 0, false, 0⟩ : Numeral).through ('.' :: text) =
      some ⟨.fraction, negative, Nat.ofDigitChars 10 text value, text.length, false, 0⟩ := by
  have point : (⟨phase, negative, value, 0, false, 0⟩ : Numeral).next '.' =
      some ⟨.point, negative, value, 0, false, 0⟩ := by
    rcases whole with rfl | rfl <;> rfl
  cases text with
  | nil => exact absurd rfl some'
  | cons c rest =>
    obtain ⟨digit, digits⟩ := digits.tail
    have first : (⟨.point, negative, value, 0, false, 0⟩ : Numeral).next c =
        some ⟨.fraction, negative, 10 * value + (c.toNat - '0'.toNat), 1, false, 0⟩ := by
      simp [Numeral.next, digit?_of_isDigit digit]
    rw [numeral_step point, numeral_step first, through_places negative digits,
      Nat.ofDigitChars_cons, List.length_cons, Nat.add_comm 1]

theorem through_exponent {phase : NumeralPhase} (body : phase = .whole ∨ phase = .fraction)
    (value places : Nat) (power : Int) :
    (⟨phase, negative, value, places, false, 0⟩ : Numeral).through
        ('e' :: (if power < 0 then ['-'] else ['+']) ++ Nat.toDigits 10 power.natAbs) =
      some ⟨.power, negative, value, places, decide (power < 0), power.natAbs⟩ := by
  have mark : (⟨phase, negative, value, places, false, 0⟩ : Numeral).next 'e' =
      some ⟨.mark, negative, value, places, false, 0⟩ := by
    rcases body with rfl | rfl <;> rfl
  have sign : (⟨.mark, negative, value, places, false, 0⟩ : Numeral).through
      (if power < 0 then ['-'] else ['+']) =
        some ⟨.markSign, negative, value, places, decide (power < 0), 0⟩ := by
    by_cases below : power < 0
    · rw [if_pos below, decide_eq_true below]
      rfl
    · rw [if_neg below, decide_eq_false below]
      rfl
  have digits := digits_toDigits power.natAbs
  have value' := @Nat.ofDigitChars_ten_toDigits power.natAbs
  rw [List.cons_append, numeral_step mark, numeral_trans sign]
  cases text : Nat.toDigits 10 power.natAbs with
  | nil => exact absurd text Nat.toDigits_ne_nil
  | cons c rest =>
    rw [text] at digits value'
    obtain ⟨digit, digits⟩ := digits.tail
    have first : (⟨.markSign, negative, value, places, decide (power < 0), 0⟩ : Numeral).next c =
        some ⟨.power, negative, value, places, decide (power < 0), 10 * 0 + (c.toNat - '0'.toNat)⟩ := by
      simp [Numeral.next, digit?_of_isDigit digit]
    rw [numeral_step first, through_power negative digits, ← Nat.ofDigitChars_cons, value']

end Phases

/-- A text without a sign, read behind a sign or without one, is a number. -/
structure Spells (negative : Bool) (text : List Char) (value : Json) : Prop where
  head : ∃ c rest, text = c :: rest ∧ c.isDigit = true
  reads : ∃ n, (Numeral.opened negative).through text = some n ∧ n.value? = some value

section Spelling

variable (negative : Bool) {c : Char} {rest places : List Char}

theorem head_toDigits {n : Nat} (positive : 0 < n) :
    ∃ c rest, Nat.toDigits 10 n = c :: rest ∧ c ≠ '0' := by
  induction n using Nat.strongRecOn with
  | ind n ih =>
    rw [Nat.toDigits_eq_if (by decide)]
    split
    · exact ⟨n.digitChar, [], rfl, fun zero => Nat.ne_of_gt positive (Nat.digitChar_eq_zero.mp zero)⟩
    · obtain ⟨c, rest, same, other⟩ := ih (n / 10) (by omega) (by omega)
      exact ⟨c, rest ++ [Nat.digitChar (n % 10)], by rw [same, List.cons_append], other⟩

theorem spells_integer (n : Nat) (signed : negative = true → n ≠ 0) :
    Spells negative (Nat.toDigits 10 n) (.integer (if negative then -n else n)) := by
  rcases Nat.eq_zero_or_pos n with rfl | positive
  · have plain : negative = false := by
      cases negative with
      | false => rfl
      | true => exact absurd rfl (signed rfl)
    subst plain
    exact ⟨⟨'0', [], rfl, rfl⟩, _, opened_through_zero false, rfl⟩
  · obtain ⟨c, rest, same, head⟩ := head_toDigits positive
    have digits := digits_toDigits n
    have value := @Nat.ofDigitChars_ten_toDigits n
    rw [same] at digits value ⊢
    refine ⟨⟨c, rest, rfl, digits.tail.1⟩, _, opened_through_whole negative digits head, ?_⟩
    rw [value]
    rfl

theorem spells_point (digits : Digits (c :: rest)) (head : c ≠ '0') (digits' : Digits places)
    (some' : places ≠ []) :
    Spells negative (c :: rest ++ '.' :: places)
      (.decimal ⟨negative, Nat.ofDigitChars 10 (c :: rest ++ places) 0, -(places.length : Int)⟩) := by
  have whole := opened_through_whole negative digits head
  have fraction := through_fraction negative (.inr rfl) (Nat.ofDigitChars 10 (c :: rest) 0) digits' some'
  refine ⟨⟨c, _, rfl, digits.tail.1⟩, _, (numeral_trans whole).trans fraction, ?_⟩
  rw [← Nat.ofDigitChars_append]
  simp [Numeral.value?]

theorem spells_below_one (digits : Digits places) (some' : places ≠ []) :
    Spells negative ('0' :: '.' :: places)
      (.decimal ⟨negative, Nat.ofDigitChars 10 places 0, -(places.length : Int)⟩) := by
  have fraction := through_fraction negative (.inl rfl) 0 digits some'
  refine ⟨⟨'0', _, rfl, rfl⟩, _, (numeral_trans (opened_through_zero negative)).trans fraction, ?_⟩
  simp [Numeral.value?]

theorem sign_natAbs (n : Int) :
    (if decide (n < 0) = true then -(n.natAbs : Int) else n.natAbs) = n := by
  by_cases below : n < 0
  · rw [if_pos (decide_eq_true below)]
    omega
  · rw [if_neg (by simpa using below)]
    omega

theorem spells_scientific (digits : Digits (c :: rest)) (head : c ≠ '0') (power : Int) :
    Spells negative (Decimal.scientific Decimal.layout (c :: rest) power)
      (.decimal ⟨negative, Nat.ofDigitChars 10 (c :: rest) 0, power - rest.length⟩) := by
  have single : Digits [c] := fun other member => digits other (by simp_all)
  have sign : (if power < 0 then ['-'] else Decimal.layout.plus.toList) =
      if power < 0 then ['-'] else ['+'] := rfl
  unfold Decimal.scientific
  dsimp only
  rw [sign]
  refine ⟨⟨c, _, rfl, digits.tail.1⟩, ?_⟩
  have whole := opened_through_whole negative single head
  cases rest with
  | nil =>
    refine ⟨_, (numeral_trans whole).trans (through_exponent negative (.inl rfl) _ 0 power), ?_⟩
    simp only [Numeral.value?, sign_natAbs]
    rfl
  | cons d rest =>
    have fraction := through_fraction negative (.inr rfl) (Nat.ofDigitChars 10 [c] 0) digits.tail.2
      (List.cons_ne_nil d rest)
    have text : (c :: d :: rest).take 1 ++ '.' :: (c :: d :: rest).drop 1 = [c] ++ '.' :: d :: rest :=
      rfl
    have long : ¬(c :: d :: rest).length ≤ 1 := by simp
    rw [if_neg long, text]
    refine ⟨_, (numeral_trans ((numeral_trans whole).trans fraction)).trans
      (through_exponent negative (.inr rfl) _ _ power), ?_⟩
    simp only [Numeral.value?, sign_natAbs, ← Nat.ofDigitChars_append]
    rfl

variable {n : Nat} {exponent : Int}

theorem spells_leading (digits : Digits (c :: rest)) (value : Nat.ofDigitChars 10 (c :: rest) 0 = n)
    (k : Nat) : Spells negative ('0' :: '.' :: (Decimal.zeros k ++ c :: rest))
      (.decimal ⟨negative, n, -((k + (rest.length + 1) : Nat) : Int)⟩) := by
  have spelled := spells_below_one negative ((digits_zeros k).append digits) (by simp)
  rwa [Nat.ofDigitChars_append, Decimal.zeros, Nat.ofDigitChars_replicate_zero, Nat.mul_zero, value,
    List.length_append, List.length_replicate, List.length_cons] at spelled

theorem spells_trailing (digits : Digits (c :: rest)) (head : c ≠ '0')
    (value : Nat.ofDigitChars 10 (c :: rest) 0 = n) (k : Nat) :
    Spells negative (c :: rest ++ Decimal.zeros k ++ ['.', '0'])
      (.decimal ⟨negative, n * 10 ^ (k + 1), -1⟩) := by
  have before : Digits (c :: (rest ++ Decimal.zeros k)) := digits.append (digits_zeros k)
  have spelled := spells_point negative before head (digits_zeros 1) (List.cons_ne_nil _ _)
  rw [← List.cons_append, Nat.ofDigitChars_append, Nat.ofDigitChars_append, value, Decimal.zeros,
    Nat.ofDigitChars_replicate_zero, Decimal.zeros, Nat.ofDigitChars_replicate_zero] at spelled
  rwa [Nat.pow_succ, Nat.mul_comm n, Nat.mul_comm (10 ^ k), Nat.mul_assoc]

theorem spells_inside (digits : Digits (c :: rest)) (head : c ≠ '0')
    (value : Nat.ofDigitChars 10 (c :: rest) 0 = n) {whole : Nat} (inside : whole < rest.length) :
    Spells negative (c :: rest.take whole ++ '.' :: rest.drop whole)
      (.decimal ⟨negative, n, -((rest.length - whole : Nat) : Int)⟩) := by
  have before : Digits (c :: rest.take whole) := fun d member => digits d
    (List.cons_subset_cons c (List.take_subset whole rest) member)
  have behind : Digits (rest.drop whole) := fun d member => digits d
    (List.mem_cons_of_mem c (List.drop_subset whole rest member))
  have some' : rest.drop whole ≠ [] := by
    rw [Ne, List.drop_eq_nil_iff]
    omega
  have spelled := spells_point negative before head behind some'
  have whole' : c :: rest.take whole ++ rest.drop whole = c :: rest := by
    rw [List.cons_append, List.take_append_drop]
  rwa [whole', value, List.length_drop] at spelled

/-- The digits of a number with their point somewhere, and with the zeros that takes. -/
theorem spells_positional (positive : 0 < n) (short : exponent + Decimal.width n ≤ 16) :
    Spells negative (Decimal.positional (Nat.toDigits 10 n) (exponent + Decimal.width n))
      (.decimal (Decimal.reread ⟨negative, n, exponent⟩)) := by
  obtain ⟨c, rest, same, head⟩ := head_toDigits positive
  have digits := digits_toDigits n
  have value := @Nat.ofDigitChars_ten_toDigits n
  have long : Decimal.width n = rest.length + 1 := by rw [Decimal.width, same, List.length_cons]
  unfold Decimal.positional Decimal.reread
  dsimp only
  rw [if_neg (Nat.ne_of_gt positive), show Decimal.layout.bound = 16 from rfl]
  rw [long] at short ⊢
  rw [same] at digits value ⊢
  -- by where the point is: before all digits, behind them, or among them
  split
  · rename_i leading
    have places : -(((-(exponent + ((rest.length + 1 : Nat) : Int))).toNat +
        (rest.length + 1) : Nat) : Int) = exponent := by omega
    have spelled := spells_leading negative digits value
      (-(exponent + ((rest.length + 1 : Nat) : Int))).toNat
    rw [if_neg (by omega)]
    rwa [places] at spelled
  · split
    · rename_i trailing
      rw [List.length_cons] at trailing
      have gap : (exponent + ((rest.length + 1 : Nat) : Int)).toNat - (c :: rest).length =
          exponent.toNat := by
        rw [List.length_cons]
        omega
      rw [if_pos (by omega), gap]
      exact spells_trailing negative digits head value exponent.toNat
    · rename_i some' inside
      rw [List.length_cons] at inside
      obtain ⟨whole, point⟩ : ∃ whole, (exponent + ((rest.length + 1 : Nat) : Int)).toNat = whole + 1 :=
        ⟨_, (Nat.sub_add_cancel (show 1 ≤ _ by omega)).symm⟩
      have places : -((rest.length - whole : Nat) : Int) = exponent := by omega
      have short : whole < rest.length := by omega
      have spelled := spells_inside negative digits head value short
      rw [if_neg (by omega), point, List.take_succ_cons, List.drop_succ_cons]
      rwa [places] at spelled

/-- The text of a decimal without its sign spells the decimal. -/
theorem spells_decimal (d : Decimal) :
    ∃ text, d.chars Decimal.layout = (if d.negative then ['-'] else []) ++ text ∧
      Spells d.negative text (.decimal d.reread) := by
  obtain ⟨negative, n, exponent⟩ := d
  unfold Decimal.chars
  dsimp only
  split
  · rename_i zero
    subst zero
    exact ⟨_, rfl, spells_below_one negative (digits_zeros 1) (List.cons_ne_nil _ _)⟩
  · rename_i some'
    have positive : 0 < n := Nat.pos_of_ne_zero some'
    refine ⟨_, rfl, ?_⟩
    rw [show Decimal.layout.least = -5 from rfl, show Decimal.layout.bound = 16 from rfl]
    split
    · rename_i near
      have short : exponent + Decimal.width n ≤ 16 := by
        rw [Decimal.width]
        omega
      exact spells_positional negative positive short
    · rename_i far
      obtain ⟨c, rest, same, head⟩ := head_toDigits positive
      have digits := digits_toDigits n
      have value := @Nat.ofDigitChars_ten_toDigits n
      rw [same, List.length_cons] at far
      rw [same] at digits value ⊢
      -- With an exponent the digits are printed as they are. In positional notation zeros are added.
      have itself : Decimal.reread ⟨negative, n, exponent⟩ = ⟨negative, n, exponent⟩ := by
        unfold Decimal.reread
        dsimp only
        rw [if_neg some', if_neg]
        rw [Decimal.width, same, List.length_cons, show Decimal.layout.bound = 16 from rfl]
        omega
      have spelled := spells_scientific negative digits head
        (exponent + ((c :: rest).length : Int) - 1)
      have power : exponent + ((c :: rest).length : Int) - 1 - (rest.length : Int) = exponent := by
        rw [List.length_cons]
        omega
      rw [value, power] at spelled
      rwa [itself]

end Spelling

end LatencyRank.Json
