/-!
Doubles as exact numbers.

Without its sign a double is a magnitude: its bits read as a natural number. Magnitudes order like
the numbers they stand for, zero first and infinity last, so rounding a fraction to the nearest
double is computing one natural number, here in exact arithmetic.
-/

namespace DesignChart.Binary64

/-- The value of the sign bit. -/
def signBit : Nat := 1 <<< 63

/-- The bits of a double without its sign. -/
def magnitude (v : Float) : Nat := v.toBits.toNat % signBit

/-- Whether the sign bit is set, as it may be on zeros too. -/
def isNegative (v : Float) : Bool := signBit ≤ v.toBits.toNat

/-- The double of a sign and a magnitude. -/
def ofMagnitude (negative : Bool) (bits : Nat) : Float :=
  .ofBits (.ofNat (if negative then signBit + bits else bits))

/-- The magnitude beyond all finite ones. -/
def infinity : Nat := 2047 <<< 52

/-- A finite magnitude stands for `significand * 2 ^ exponent`. Below the first `2 ^ 52` magnitudes
the exponent is the smallest one; from there on, the upper bits count exponents and the lower 52
bits continue a leading one. -/
def significand (bits : Nat) : Nat :=
  if bits >>> 52 = 0 then bits else 1 <<< 52 + bits % 1 <<< 52

@[inherit_doc significand]
def exponent (bits : Nat) : Int :=
  if bits >>> 52 = 0 then -1074 else (bits >>> 52 : Nat) - 1075

/-- The magnitude of `significand * 2 ^ exponent`, if the significand has 53 binary digits or the
exponent is the smallest one. A significand of `2 ^ 53` carries over into the exponent. -/
def pack (significand : Nat) (exponent : Int) : Nat :=
  (exponent + 1074).toNat <<< 52 + significand

/-- The power of `base` to a whole exponent as a fraction. -/
def power (base : Nat) (exponent : Int) : Nat × Nat :=
  if 0 ≤ exponent then (base.pow exponent.toNat, 1) else (1, base.pow (-exponent).toNat)

/-- The number a finite magnitude stands for, as a fraction. -/
def toFraction (bits : Nat) : Nat × Nat :=
  let (n, d) := power 2 (exponent bits)
  (significand bits * n, d)

/-- The natural number nearest to a fraction, and of two equally near ones the even one. -/
def roundHalfEven (num den : Nat) : Nat :=
  let quotient := num / den
  let twice := 2 * (num % den)
  if twice < den then quotient
  else if den < twice then quotient + 1
  else quotient + quotient % 2

/-- The exponent of the greatest power of two that is not above a positive fraction. -/
def floorLog2 (num den : Nat) : Int :=
  let guess : Int := num.log2 - den.log2
  let (n, d) := power 2 guess
  if num * d < den * n then guess - 1 else guess

/-- The magnitude nearest to a positive fraction: the fraction in units of the last of 53 binary
digits, or of the smallest magnitude where that is coarser, rounded. -/
def nearest (num den : Nat) : Nat :=
  let unit := max (floorLog2 num den - 52) (-1074)
  let (n, d) := power 2 unit
  min (pack (roundHalfEven (num * d) (den * n)) unit) infinity

end DesignChart.Binary64
