/-!
Numbers of a fixed width. Times, latencies and scores are integers of a signed 64-bit range; sums that
leave the range stop at its nearer end, so a comparison of two scores never turns round. Counters and
the numbers of documents are unsigned, and a counter stops at its limit.
-/

namespace LatencyRank

namespace Signed

def lowest : Int := -0x8000000000000000

def highest : Int := 0x7FFFFFFFFFFFFFFF

def clamp (x : Int) : Int := max lowest (min x highest)

def add (x y : Int) : Int := clamp (x + y)

def sub (x y : Int) : Int := clamp (x - y)

def mul (x y : Int) : Int := clamp (x * y)

/-- Reads 64 bits as two's complement: the upper half of the unsigned range is negative. -/
def ofUnsigned (n : Nat) : Int := if n ≤ highest then n else n - (highest - lowest + 1)

def InRange (x : Int) : Prop := lowest ≤ x ∧ x ≤ highest

instance (x : Int) : Decidable (InRange x) := inferInstanceAs (Decidable (_ ∧ _))

theorem clamp_of_inRange {x : Int} (h : InRange x) : clamp x = x := by
  simp only [InRange, clamp, lowest, highest] at *
  omega

theorem clamp_le_clamp {x y : Int} (h : x ≤ y) : clamp x ≤ clamp y := by
  simp only [clamp]
  omega

theorem add_le_add {a b c d : Int} (left : a ≤ b) (right : c ≤ d) : add a c ≤ add b d :=
  clamp_le_clamp (Int.add_le_add left right)

end Signed

namespace Unsigned

def greatest16 : Nat := 0xFFFF

def greatest32 : Nat := 0xFFFFFFFF

def greatest64 : Nat := 0xFFFFFFFFFFFFFFFF

def bump (limit n : Nat) : Nat := min (n + 1) limit

theorem bump_le (limit n : Nat) : bump limit n ≤ limit := Nat.min_le_right _ _

theorem bump_pos {limit n : Nat} (h : 0 < limit) : 0 < bump limit n :=
  Nat.lt_min.mpr ⟨Nat.succ_pos n, h⟩

theorem bump_of_lt {limit n : Nat} (h : n < limit) : bump limit n = n + 1 := Nat.min_eq_left h

end Unsigned

end LatencyRank
