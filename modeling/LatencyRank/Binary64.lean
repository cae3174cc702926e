import LatencyRank.FixedWidth

/-!
Doubles without a machine behind them. A magnitude is a whole number of the least positive double,
so that order is the order of the integers and every operation is one exact quotient, rounded once
to the nearest double with ties to even. Results at or past `limit` are infinite. No operation of
this library reaches a value that is not a number: operands are finite and no divisor is zero.
-/

namespace LatencyRank

structure Binary64 where
  negative : Bool
  /-- The magnitude, counted in units of the least positive double. -/
  units : Nat
deriving DecidableEq, Repr

namespace Binary64

/-- The number one, in units. -/
def one : Nat := Nat.pow 2 1074

/-- Infinity, in units: the first power of two above every finite double. -/
def limit : Nat := Nat.pow 2 2098

/-- The distance of neighbouring doubles in the binade of `q`: 53 significant bits. -/
def spacing (q : Nat) : Nat := Nat.pow 2 (q.log2 - 52)

/-- `num / den`, to the nearest whole number, a tie to the even one. -/
def roundQuotient (num den : Nat) : Nat :=
  let low := num / den
  let rest := num % den
  if 2 * rest < den then low else if den < 2 * rest then low + 1 else low + low % 2

def nearest (num den : Nat) : Nat :=
  let step := spacing (num / den)
  min (roundQuotient num (den * step) * step) limit

def zero : Binary64 := ⟨false, 0⟩

def ofInt (n : Int) : Binary64 := ⟨decide (n < 0), nearest (n.natAbs * one) 1⟩

def signed (x : Binary64) : Int := if x.negative then -(x.units : Int) else x.units

def isFinite (x : Binary64) : Bool := decide (x.units < limit)

instance : LT Binary64 := ⟨fun x y => x.signed < y.signed⟩

instance : LE Binary64 := ⟨fun x y => x.signed ≤ y.signed⟩

instance (x y : Binary64) : Decidable (x < y) := inferInstanceAs (Decidable (x.signed < y.signed))

instance (x y : Binary64) : Decidable (x ≤ y) := inferInstanceAs (Decidable (x.signed ≤ y.signed))

/-- Both zeros are zero. -/
def isZero (x : Binary64) : Bool := x.units == 0

def mul (x y : Binary64) : Binary64 := ⟨x.negative != y.negative, nearest (x.units * y.units) one⟩

def div (x y : Binary64) : Binary64 := ⟨x.negative != y.negative, nearest (x.units * one) y.units⟩

/-- A difference of equal numbers is the positive zero, except that `-0 - 0` keeps its sign. -/
def sub (x y : Binary64) : Binary64 :=
  let difference := x.signed - y.signed
  let sign := if difference = 0 then x.negative && !y.negative else decide (difference < 0)
  ⟨sign, nearest difference.natAbs 1⟩

/-- Toward zero, then into the signed range. -/
def truncate (x : Binary64) : Int :=
  let whole : Int := x.units / one
  Signed.clamp (if x.negative then -whole else whole)

/-- To the nearest integer, a half away from zero, then into the signed range. -/
def round (x : Binary64) : Int :=
  let whole : Int := (2 * x.units + one) / (2 * one)
  Signed.clamp (if x.negative then -whole else whole)

end Binary64

end LatencyRank
