import Mathlib
import LatencyRank.History.Record
import LatencyRank.Proofs.Binary64

/-!
How a weight fades. Up to the time of the last failure it is the full weight; from there on it falls,
and when the window is over nothing is left. Every step of the computation is monotone, rounded or not:
the weight grows with the counters and never grows with time.
-/

namespace LatencyRank

namespace FailureRecord

section Share

variable {full full' elapsed elapsed' window : Nat}

/-- The share of a weight that is left some time inside the window. -/
def left (elapsed window : Nat) : Binary64 :=
  (Binary64.ofInt 1).sub ((Binary64.ofInt elapsed).div (.ofInt window))

def fade (full elapsed window : Nat) : Int := ((Binary64.ofInt full).mul (left elapsed window)).truncate

theorem left_bounds (positive : 0 < window) (inside : elapsed ≤ window) :
    (left elapsed window).negative = false ∧ (left elapsed window).units ≤ Binary64.one :=
  Binary64.one_sub_bounds (Binary64.negative_share elapsed window) (Binary64.share_le_one positive inside)

theorem left_antitone (positive : 0 < window) (earlier : elapsed' ≤ elapsed) (inside : elapsed ≤ window) :
    (left elapsed window).units ≤ (left elapsed' window).units :=
  Binary64.one_sub_antitone (Binary64.negative_share elapsed' window)
    (Binary64.negative_share elapsed window) (Binary64.share_mono positive earlier)
    (Binary64.share_le_one positive inside)

theorem left_fresh (window : Nat) : (left 0 window).units = Binary64.one := by
  have none' := Binary64.share_zero window
  rw [left, Binary64.one_sub_eq (Binary64.negative_share 0 window) (by omega), none', Nat.sub_zero]
  exact Binary64.exact_one

theorem negative_faded (full : Nat) (positive : 0 < window) (inside : elapsed ≤ window) :
    ((Binary64.ofInt full).mul (left elapsed window)).negative = false :=
  Binary64.negative_mul (Binary64.negative_ofInt full) (left_bounds positive inside).1

theorem fade_bounds (few : full < 2 ^ 53) (positive : 0 < window) (inside : elapsed ≤ window) :
    0 ≤ fade full elapsed window ∧ fade full elapsed window ≤ full := by
  have share := (left_bounds positive inside).2
  have product := Binary64.mul_le (m := full) (n := 1) (by omega)
    (Nat.le_of_eq (Binary64.units_ofInt few)) (by rwa [Nat.one_mul])
  rw [Nat.mul_one] at product
  exact Binary64.truncate_bounds few (negative_faded full positive inside) product

/-- More failures and less time leave no less. -/
theorem fade_mono (positive : 0 < window) (less : full ≤ full') (earlier : elapsed' ≤ elapsed)
    (inside : elapsed ≤ window) : fade full elapsed window ≤ fade full' elapsed' window :=
  Binary64.truncate_mono (negative_faded full positive inside)
    (negative_faded full' positive (earlier.trans inside))
    (Binary64.mul_mono (Binary64.units_mono less) (left_antitone positive earlier inside))

theorem fade_fresh (few : full < 2 ^ 53) (positive : 0 < window) : fade full 0 window = full := by
  have units := Binary64.mul_one few (left_fresh window)
  have whole : full * Binary64.one / Binary64.one = full := Nat.mul_div_cancel full Binary64.one_pos
  rw [fade, Binary64.truncate_eq (negative_faded full positive (Nat.zero_le window))
    (by rwa [units, whole]), units, whole]

theorem fade_none (positive : 0 < window) (inside : elapsed ≤ window) : fade 0 elapsed window = 0 := by
  have bounds : 0 ≤ fade 0 elapsed window ∧ fade 0 elapsed window ≤ (0 : Nat) :=
    fade_bounds (by decide) positive inside
  exact Int.le_antisymm bounds.2 bounds.1

end Share

section Weight

variable {r r' : FailureRecord} {now now' : Int}

/-- The time since the last failure. A clock that shows an earlier time shows none. -/
def elapsed (r : FailureRecord) (now : Int) : Nat := (Signed.sub now r.lastFailure).toNat

theorem elapsed_mono (later : now ≤ now') : r.elapsed now ≤ r.elapsed now' := by
  have less : Signed.sub now r.lastFailure ≤ Signed.sub now' r.lastFailure :=
    Signed.clamp_le_clamp (Int.sub_le_sub_right later _)
  exact Int.toNat_le_toNat less

theorem elapsed_early (early : now ≤ r.lastFailure) : r.elapsed now = 0 := by
  simp only [elapsed, Signed.sub, Signed.clamp, Signed.lowest, Signed.highest]
  omega

theorem elapsed_late {window : Nat} (late : window ≤ now - r.lastFailure)
    (width : window ≤ Signed.highest) : window ≤ r.elapsed now := by
  simp only [elapsed, Signed.sub, Signed.clamp, Signed.lowest, Signed.highest] at *
  omega

theorem weightAt_of_undated (undated : r.lastFailure ≤ 0) (window now : Int) :
    r.weightAt window now = r.fullWeight := by
  unfold weightAt
  dsimp only
  split
  · rename_i none'
    rw [none']
    rfl
  · rfl

theorem weightAt_of_dated {window : Nat} (dated : 0 < r.lastFailure) (positive : 0 < window) :
    r.weightAt window now =
      if window ≤ r.elapsed now then 0 else fade r.fullWeight (r.elapsed now) window := by
  have since : max (Signed.sub now r.lastFailure) 0 = (r.elapsed now : Int) :=
    (Int.toNat_eq_max _).symm
  unfold weightAt
  dsimp only
  rw [since]
  by_cases past : window ≤ r.elapsed now
  · have past' : (window : Int) ≤ r.elapsed now := by omega
    rw [if_pos past, if_neg (Int.not_le.mpr dated), if_pos (Or.inr past'), ite_self]
  · have inside : ¬((window : Int) ≤ 0 ∨ (window : Int) ≤ r.elapsed now) := by omega
    rw [if_neg past, if_neg (Int.not_le.mpr dated), if_neg inside]
    split
    · rename_i none'
      rw [none', fade_none positive (by omega)]
    · rfl

theorem weightAt_of_closed {window : Int} (dated : 0 < r.lastFailure) (closed : window ≤ 0) :
    r.weightAt window now = 0 := by
  unfold weightAt
  dsimp only
  rw [if_neg (Int.not_le.mpr dated), if_pos (Or.inl closed), ite_self]

/-- The faded weight is between nothing and the full weight: rounding does not lift it above. -/
theorem weightAt_bounds (window now : Int) {r : FailureRecord} (few : r.fullWeight < 2 ^ 53) :
    0 ≤ r.weightAt window now ∧ r.weightAt window now ≤ r.fullWeight := by
  rcases Int.lt_or_le 0 r.lastFailure with dated | undated
  · rcases Int.lt_or_le 0 window with positive | closed
    · obtain ⟨span, rfl⟩ := Int.eq_ofNat_of_zero_le (Int.le_of_lt positive)
      rw [weightAt_of_dated dated (by omega)]
      split
      · omega
      · exact fade_bounds few (by omega) (by omega)
    · rw [weightAt_of_closed dated closed]
      omega
  · rw [weightAt_of_undated undated]
    omega

theorem weightAt_early {window : Int} (few : r.fullWeight < 2 ^ 53) (positive : 0 < window)
    (early : now ≤ r.lastFailure) : r.weightAt window now = r.fullWeight := by
  rcases Int.lt_or_le 0 r.lastFailure with dated | undated
  · obtain ⟨span, rfl⟩ := Int.eq_ofNat_of_zero_le (Int.le_of_lt positive)
    have wide : 0 < span := by omega
    rw [weightAt_of_dated dated wide, elapsed_early early, if_neg (by omega), fade_fresh few wide]
  · exact weightAt_of_undated undated window now

theorem weightAt_late {window : Int} (dated : 0 < r.lastFailure) (positive : 0 < window)
    (width : window ≤ Signed.highest) (late : window ≤ now - r.lastFailure) :
    r.weightAt window now = 0 := by
  obtain ⟨span, rfl⟩ := Int.eq_ofNat_of_zero_le (Int.le_of_lt positive)
  rw [weightAt_of_dated dated (by omega), if_pos (elapsed_late late width)]

/-- Of two histories that failed last at the same time, the one with less to weigh never weighs more, not
even when it is looked at earlier. -/
theorem weightAt_mono {window : Int} (positive : 0 < window) (less : r.fullWeight ≤ r'.fullWeight)
    (same : r.lastFailure = r'.lastFailure) (earlier : now' ≤ now) :
    r.weightAt window now ≤ r'.weightAt window now' := by
  obtain ⟨span, rfl⟩ := Int.eq_ofNat_of_zero_le (Int.le_of_lt positive)
  have wide : 0 < span := by omega
  rcases Int.lt_or_le 0 r.lastFailure with dated | undated
  · have sooner : r'.elapsed now' ≤ r.elapsed now := by
      have alike : r'.elapsed now' = r.elapsed now' := by rw [elapsed, elapsed, same]
      rw [alike]
      exact elapsed_mono earlier
    rw [weightAt_of_dated dated wide, weightAt_of_dated (same ▸ dated) wide]
    by_cases past' : span ≤ r'.elapsed now'
    · rw [if_pos past', if_pos (past'.trans sooner)]
    · rw [if_neg past']
      split
      · -- one window is over: what the other still weighs is not below nothing
        rw [← fade_none wide (Nat.le_of_not_le past')]
        exact fade_mono wide (Nat.zero_le _) (Nat.le_refl _) (Nat.le_of_not_le past')
      · rename_i inside
        exact fade_mono wide less sooner (Nat.le_of_not_le inside)
  · rw [weightAt_of_undated undated, weightAt_of_undated (same ▸ undated)]
    exact Int.ofNat_le.mpr less

end Weight

section Decay

variable {r : FailureRecord} {window : Int}

theorem fullWeight_few (failures : r.failures ≤ Unsigned.greatest32)
    (fastFails : r.fastFails ≤ Unsigned.greatest32) : r.fullWeight < 2 ^ 53 := by
  simp only [fullWeight, failureWeight, fastFailWeight, Unsigned.greatest32] at *
  omega

theorem fullWeight_mono {r' : FailureRecord} (failures : r.failures ≤ r'.failures)
    (fastFails : r.fastFails ≤ r'.fastFails) : r.fullWeight ≤ r'.fullWeight :=
  Nat.add_le_add (Nat.mul_le_mul_left _ failures) (Nat.mul_le_mul_left _ fastFails)

/-- The law by which a weight decays: whatever the record and the positive window, it starts at fifty for
each failure and five hundred for each fast one, which is far inside the range, never passes that, never
grows with time, and is gone when the window is over. Without a known time it stays. -/
theorem weight_decays (failures : r.failures ≤ Unsigned.greatest32)
    (fastFails : r.fastFails ≤ Unsigned.greatest32) (positive : 0 < window)
    (width : window ≤ Signed.highest) :
    let full : Int := 50 * r.failures + 500 * r.fastFails
    Signed.InRange full ∧
    (∀ now, 0 ≤ r.weightAt window now ∧ r.weightAt window now ≤ full) ∧
    (∀ now later, now ≤ later → r.weightAt window later ≤ r.weightAt window now) ∧
    (0 < r.lastFailure →
      (∀ now, now ≤ r.lastFailure → r.weightAt window now = full) ∧
      ∀ now, window ≤ now - r.lastFailure → r.weightAt window now = 0) ∧
    (r.lastFailure ≤ 0 → ∀ now, r.weightAt window now = full) ∧
    ∀ r' : FailureRecord, r.lastFailure = r'.lastFailure → r.failures ≤ r'.failures →
      r.fastFails ≤ r'.fastFails → ∀ now, r.weightAt window now ≤ r'.weightAt window now := by
  intro full
  have same : full = r.fullWeight := rfl
  have few := fullWeight_few failures fastFails
  rw [same]
  refine ⟨Binary64.inRange_of_few few, fun now => weightAt_bounds window now few, ?_, ?_, ?_, ?_⟩
  · exact fun now later le => weightAt_mono positive (Nat.le_refl _) rfl le
  · intro dated
    exact ⟨fun now early => weightAt_early few positive early,
      fun now late => weightAt_late dated positive width late⟩
  · exact fun undated now => weightAt_of_undated undated window now
  · intro r' alike failures fastFails now
    exact weightAt_mono positive (fullWeight_mono failures fastFails) alike (Int.le_refl now)

/-- With the greatest counters and the longest window, from one end of time to the other. -/
theorem weight_decays_of_greatest :
    let r : FailureRecord :=
      { ip := "9.9.9.9", failures := Unsigned.greatest32, fastFails := Unsigned.greatest32, lastFailure := 1 }
    0 < Signed.highest ∧
      r.weightAt Signed.highest Signed.lowest = 50 * Unsigned.greatest32 + 500 * Unsigned.greatest32 ∧
      r.weightAt Signed.highest Signed.highest ≤ r.weightAt Signed.highest 2 := by
  intro r
  have decays := weight_decays (r := r) (Nat.le_refl _) (Nat.le_refl _) (by decide : 0 < Signed.highest)
    (Int.le_refl _)
  exact ⟨by decide, (decays.2.2.2.1 (by decide)).1 Signed.lowest (by decide),
    decays.2.2.1 2 Signed.highest (by decide)⟩

end Decay

end FailureRecord

end LatencyRank
