import Mathlib
import LatencyRank.Ranking.Score
import LatencyRank.Proofs.Binary64

/-!
Lifetimes compared. A measurement falls into one of five bands, and no greater latency or loss lifts it
into a better one; so of two measurements the one that is nowhere worse is never kept for a shorter time,
also where the share of the base is rounded or stops at the end of the range.
-/

namespace LatencyRank

namespace Measurement

section Bands

def leastFactor : Binary64 := Decimal.toBinary64 ⟨false, 8, -2⟩

/-- What a lifetime depends on, the worst first. -/
inductive Band where
  | dead
  | lossy
  | unsteady
  | slow
  | quick

namespace Band

def rank : Band → Nat
  | dead => 0
  | lossy => 1
  | unsteady => 2
  | slow => 3
  | quick => 4

def share : Band → Binary64
  | dead => leastFactor
  | lossy => Decimal.toBinary64 ⟨false, 17, -2⟩
  | unsteady => .ofInt 1
  | slow => .ofInt 5
  | quick => .ofInt 10

theorem negative_share (b : Band) : b.share.negative = false := by
  cases b <;> decide +kernel

theorem share_mono {b b' : Band} (le : b.rank ≤ b'.rank) : b.share.units ≤ b'.share.units := by
  revert le
  cases b <;> cases b' <;> decide +kernel

end Band

def band (m : Measurement) : Band :=
  if m.isDead then .dead
  else if Binary64.ofInt 50 ≤ m.loss then .lossy
  else if Binary64.zero < m.loss then .unsteady
  else if m.latency < quickLatency then .quick
  else .slow

theorem lifetimeFactor_eq (m : Measurement) : m.lifetimeFactor = m.band.share := by
  unfold lifetimeFactor band
  split
  · rfl
  · split
    · rfl
    · split
      · rfl
      · split <;> rfl

variable {m m' : Measurement}

theorem isDead_of_worse (latency : m.latency ≤ m'.latency) (loss : m.loss ≤ m'.loss)
    (dead : m.isDead = true) : m'.isDead = true := by
  refine decide_eq_true ((of_decide_eq_true dead).imp (fun lost => ?_) fun late => ?_)
  · exact Int.le_trans lost loss
  · exact Int.le_trans late latency

theorem rank_band_antitone (latency : m.latency ≤ m'.latency) (loss : m.loss ≤ m'.loss) :
    m'.band.rank ≤ m.band.rank := by
  -- test by test in their order: what the worse one does not fail the better one does not fail
  unfold band
  by_cases dead : m'.isDead = true
  · rw [if_pos dead]
    exact Nat.zero_le _
  rw [if_neg dead, if_neg (mt (isDead_of_worse latency loss) dead)]
  by_cases lossy : Binary64.ofInt 50 ≤ m'.loss
  · rw [if_pos lossy]
    split_ifs <;> decide
  have light : ¬Binary64.ofInt 50 ≤ m.loss := fun lost => lossy (Int.le_trans lost loss)
  rw [if_neg lossy, if_neg light]
  by_cases unsteady : Binary64.zero < m'.loss
  · rw [if_pos unsteady]
    split_ifs <;> decide
  have steady : ¬Binary64.zero < m.loss := fun lost => unsteady (Int.lt_of_lt_of_le lost loss)
  rw [if_neg unsteady, if_neg steady]
  -- the last test is for the best band, and what is quick passes it
  by_cases quick : m'.latency < quickLatency
  · rw [if_pos quick, if_pos (Int.lt_of_le_of_lt latency quick)]
  · rw [if_neg quick]
    split_ifs <;> decide

end Bands

section Lifetimes

variable {m m' : Measurement} {base base' : Int}

theorem lifetimeFactor_bounds (m : Measurement) :
    m.lifetimeFactor.negative = false ∧ leastFactor.units ≤ m.lifetimeFactor.units := by
  rw [lifetimeFactor_eq]
  exact ⟨m.band.negative_share, Band.share_mono (b := .dead) (Nat.zero_le _)⟩

theorem lifetimeFactor_antitone (latency : m.latency ≤ m'.latency) (loss : m.loss ≤ m'.loss) :
    m'.lifetimeFactor.units ≤ m.lifetimeFactor.units := by
  rw [lifetimeFactor_eq, lifetimeFactor_eq]
  exact Band.share_mono (rank_band_antitone latency loss)

def wholeShare (m : Measurement) (base : Nat) : Nat :=
  ((Binary64.ofInt base).mul m.lifetimeFactor).units / Binary64.one

theorem lifetime_natCast (m : Measurement) (base : Nat) :
    m.lifetime base = Signed.clamp (m.wholeShare base) :=
  Binary64.truncate_of_positive
    (Binary64.negative_mul (Binary64.negative_ofInt base) m.lifetimeFactor_bounds.1)

theorem lifetime_neg (m : Measurement) {base : Nat} (some' : 0 < base) :
    m.lifetime (-base) = Signed.clamp (-m.wholeShare base) := by
  -- the sign is kept apart from the magnitude, which is rounded as before
  have units : (Binary64.ofInt (-base)).units = (Binary64.ofInt base).units := by
    rw [Binary64.ofInt, Binary64.ofInt, Int.natAbs_neg]
  have product : ((Binary64.ofInt (-base)).mul m.lifetimeFactor).units =
      ((Binary64.ofInt base).mul m.lifetimeFactor).units := by
    rw [Binary64.mul, Binary64.mul, units]
  have sign : ((Binary64.ofInt (-base)).mul m.lifetimeFactor).negative = true := by
    have below : (Binary64.ofInt (-base)).negative = true := decide_eq_true (by omega)
    rw [Binary64.mul, below, m.lifetimeFactor_bounds.1]
    rfl
  rw [lifetime, Binary64.truncate_of_negative sign, product, wholeShare]

theorem wholeShare_le {base base' : Nat} (share : m'.lifetimeFactor.units ≤ m.lifetimeFactor.units)
    (le : base' ≤ base) : m'.wholeShare base' ≤ m.wholeShare base :=
  Nat.div_le_div_right (Binary64.mul_mono (Binary64.units_mono le) share)

theorem le_wholeShare (m : Measurement) {base : Nat} (second : 1000 ≤ base) : 80 ≤ m.wholeShare base := by
  have least : ((Binary64.ofInt 1000).mul leastFactor).units / Binary64.one = 80 := by decide +kernel
  calc 80 = ((Binary64.ofInt 1000).mul leastFactor).units / Binary64.one := least.symm
    _ ≤ m.wholeShare 1000 :=
        Nat.div_le_div_right (Binary64.mul_mono (Nat.le_refl _) m.lifetimeFactor_bounds.2)
    _ ≤ m.wholeShare base := wholeShare_le (Nat.le_refl _) second

theorem lifetime_pos (m : Measurement) (second : 1000 ≤ base) : 0 < m.lifetime base := by
  lift base to Nat using by omega
  have enough : 80 ≤ m.wholeShare base := m.le_wholeShare (by omega)
  rw [lifetime_natCast]
  simp only [Signed.clamp, Signed.lowest, Signed.highest]
  omega

theorem lifetime_nonneg (m : Measurement) (positive : 0 ≤ base) : 0 ≤ m.lifetime base := by
  lift base to Nat using positive
  rw [lifetime_natCast]
  simp only [Signed.clamp, Signed.lowest, Signed.highest]
  omega

theorem lifetime_lt_zero (m : Measurement) (second : base ≤ -1000) : m.lifetime base < 0 := by
  obtain ⟨base, rfl⟩ : ∃ length : Nat, base = -length := ⟨base.natAbs, by omega⟩
  have enough : 80 ≤ m.wholeShare base := m.le_wholeShare (by omega)
  rw [lifetime_neg m (by omega)]
  simp only [Signed.clamp, Signed.lowest, Signed.highest]
  omega

theorem lifetime_le_lifetime (share : m'.lifetimeFactor.units ≤ m.lifetimeFactor.units)
    (positive : 0 ≤ base') (le : base' ≤ base) : m'.lifetime base' ≤ m.lifetime base := by
  lift base' to Nat using positive
  lift base to Nat using by omega
  rw [lifetime_natCast, lifetime_natCast]
  exact Signed.clamp_le_clamp (Int.ofNat_le.mpr (wholeShare_le share (Int.ofNat_le.mp le)))

theorem lifetime_mono (m : Measurement) (positive : 0 ≤ base) (le : base ≤ base') :
    m.lifetime base ≤ m.lifetime base' :=
  lifetime_le_lifetime (Nat.le_refl _) positive le

/-- What was measured with no greater latency and loss is kept for no shorter time, if its base is no
shorter; and no time is less than none. -/
theorem lifetime_antitone (latency : m.latency ≤ m'.latency) (loss : m.loss ≤ m'.loss)
    (positive : 0 ≤ base') (le : base' ≤ base) :
    m'.lifetime base' ≤ m.lifetime base ∧ 0 ≤ m'.lifetime base' :=
  ⟨lifetime_le_lifetime (lifetimeFactor_antitone latency loss) positive le,
    m'.lifetime_nonneg positive⟩

/-- At the end of the range the tenfold base is cut off; the share of a half that is lost is rounded. -/
theorem lifetime_antitone_saturated :
    let m : Measurement := ⟨"10.0.0.2", 49, .zero, .tls, false⟩
    let m' : Measurement := ⟨"10.0.0.3", 50, .ofInt 50, .udp53, false⟩
    (m.latency ≤ m'.latency ∧ m.loss ≤ m'.loss ∧ 0 ≤ Signed.highest - 1 ∧
      Signed.highest - 1 ≤ Signed.highest) ∧
      (m'.lifetime (Signed.highest - 1) ≤ m.lifetime Signed.highest ∧
        0 ≤ m'.lifetime (Signed.highest - 1)) ∧
      m.lifetime Signed.highest = Signed.highest ∧
      m'.lifetime (Signed.highest - 1) = 1567973246265312000 := by
  intro m m'
  have latency : m.latency ≤ m'.latency := by decide
  have loss : m.loss ≤ m'.loss := by decide +kernel
  exact ⟨⟨latency, loss, by decide, by decide⟩,
    lifetime_antitone latency loss (by decide) (by decide), by decide +kernel, by decide +kernel⟩

end Lifetimes

end Measurement

end LatencyRank
