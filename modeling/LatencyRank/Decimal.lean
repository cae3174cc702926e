import LatencyRank.Binary64

/-!
Decimal notation of doubles. Reading rounds the exact decimal value once. Writing looks for the
fewest digits that read back as the same double: for each number of digits it tries the two
neighbours of the value on that decimal grid. How digits become text is the concern of `Layout`.
-/

namespace LatencyRank

structure Decimal where
  negative : Bool
  digits : Nat
  exponent : Int
deriving DecidableEq, Repr

namespace Decimal

/-- How many decimal digits `n` has; zero has one. -/
def width (n : Nat) : Nat := (Nat.toDigits 10 n).length

/-- The numerator and the denominator of `digits · 10 ^ exponent`. -/
def quotient (digits : Nat) (exponent : Int) : Nat × Nat :=
  (digits * Nat.pow 10 exponent.toNat, Nat.pow 10 (-exponent).toNat)

/-- The nearest double, rounded once. A number beyond `10 ^ 310` is infinite and one below `10 ^ -330` is
zero, which is settled from its length before any power is taken. One correct rounding is assumed
of the reader of numbers: a quicker one that rounds more than once may be off by a last place, and read
`0.18181818181818182` as `0.18181818181818185`. -/
def toBinary64 (d : Decimal) : Binary64 :=
  let top : Int := d.exponent + width d.digits
  if d.digits = 0 ∨ top < -330 then ⟨d.negative, 0⟩
  else if 310 < top then ⟨d.negative, Binary64.limit⟩
  else
    let (num, den) := quotient d.digits d.exponent
    ⟨d.negative, Binary64.nearest (num * Binary64.one) den⟩

/-- Moves zeros at the end of the digits into the exponent. -/
def strip : Nat → Nat → Int → Nat × Int
  | 0, digits, exponent => (digits, exponent)
  | fuel + 1, digits, exponent =>
    if digits ≠ 0 ∧ digits % 10 = 0 then strip fuel (digits / 10) (exponent + 1)
    else (digits, exponent)

/-- The exponent `k` with `10 ^ (k - 1) ≤ units < 10 ^ k`, the magnitude taken as a number. -/
def magnitude (units : Nat) : Int :=
  -- The logarithm of two to the base ten is about 0.30103, so the guess may be low by two.
  let guess := (((units.log2 : Int) - 1074) * 30103) / 100000
  let below (k : Int) : Bool :=
    let (num, den) := quotient 1 k
    units * den < num * Binary64.one
  if below guess then guess else if below (guess + 1) then guess + 1 else guess + 2

/-- The decimals of grid `10 ^ exponent` next to the magnitude, the nearer one first; of two equally
near ones the even one. -/
def neighbours (units : Nat) (exponent : Int) : List Nat :=
  let (num, den) := quotient 1 exponent
  let unit := num * Binary64.one
  let low := units * den / unit
  let nearer := Binary64.roundQuotient (units * den) unit
  if nearer = low then [low, low + 1] else [low + 1, low]

def stripped (fuel : Nat) (negative : Bool) (digits : Nat) (exponent : Int) : Decimal :=
  let (digits, exponent) := strip fuel digits exponent
  ⟨negative, digits, exponent⟩

/-- Every digit of the magnitude: a finite double is a whole number of `10 ^ -1074`. -/
def exact (negative : Bool) (units : Nat) : Decimal :=
  stripped 1074 negative (units * Nat.pow 5 1074) (-1074)

def candidates (x : Binary64) : List Decimal :=
  let top := magnitude x.units
  (List.range 17).flatMap fun n =>
    let exponent := top - (n + 1 : Nat)
    (neighbours x.units exponent).map fun digits => stripped 20 x.negative digits exponent

/-- The fewest digits that read back as `x`, and of those the nearest to it. -/
def shortest (x : Binary64) : Decimal :=
  if x.units = 0 then ⟨x.negative, 0, 0⟩
  else match (candidates x).find? fun d => d.toBinary64 = x with
    | some d => d
    | none => exact x.negative x.units

/-- Where positional notation is used and how an exponent is written. -/
structure Layout where
  /-- The least power of ten that is written positionally. -/
  least : Int
  /-- The first power of ten that is written with an exponent again. -/
  bound : Int
  plus : String

/-- Numbers from `0.00001` up to `10 ^ 16` are positional, with at least one digit after the point;
all others have an exponent with its sign. -/
def layout : Layout := ⟨-5, 16, "+"⟩

def zeros (n : Nat) : List Char := List.replicate n '0'

/-- The digits of a magnitude whose point stands `point` places after the first digit's left. -/
def positional (digits : List Char) (point : Int) : List Char :=
  if point ≤ 0 then '0' :: '.' :: (zeros (-point).toNat ++ digits)
  else
    let whole := point.toNat
    if digits.length ≤ whole then digits ++ zeros (whole - digits.length) ++ ['.', '0']
    else digits.take whole ++ '.' :: digits.drop whole

def scientific (layout : Layout) (digits : List Char) (power : Int) : List Char :=
  let fraction := if digits.length ≤ 1 then [] else '.' :: digits.drop 1
  let sign := if power < 0 then ['-'] else layout.plus.toList
  digits.take 1 ++ fraction ++ 'e' :: (sign ++ Nat.toDigits 10 power.natAbs)

def chars (layout : Layout) (d : Decimal) : List Char :=
  let sign := if d.negative then ['-'] else []
  if d.digits = 0 then sign ++ ['0', '.', '0']
  else
    let digits := Nat.toDigits 10 d.digits
    let point : Int := d.exponent + digits.length
    let body :=
      if layout.least ≤ point - 1 ∧ point - 1 < layout.bound then positional digits point
      else scientific layout digits (point - 1)
    sign ++ body

end Decimal

end LatencyRank
