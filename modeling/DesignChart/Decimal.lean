import DesignChart.Binary64

/-!
Decimal numbers, and the double each of them reads as.
-/

namespace DesignChart

/-- The number `digits * 10 ^ exponent` with a sign, which zero has too. -/
structure Decimal where
  negative : Bool
  digits : Nat
  exponent : Int
deriving DecidableEq

namespace Decimal

/-- The number of digits that a natural number is written with. -/
def digitCount (n : Nat) : Nat := (Nat.toDigits 10 n).length

/-- The power of ten of the first digit. -/
def leadingExponent (d : Decimal) : Int := d.exponent + digitCount d.digits - 1

/-- The magnitude of the double nearest to the number without its sign. Numbers from `10 ^ 310` on
are beyond the doubles, and numbers below `10 ^ -330` are nearest to zero, whatever their digits. -/
def magnitude (d : Decimal) : Nat :=
  if d.digits = 0 then 0
  else if 310 ≤ d.leadingExponent then Binary64.infinity
  else if d.leadingExponent < -330 then 0
  else
    let (n, m) := Binary64.power 10 d.exponent
    Binary64.nearest (d.digits * n) m

/-- The nearest double; infinity for numbers beyond the doubles. -/
def toFloat (d : Decimal) : Float := Binary64.ofMagnitude d.negative d.magnitude

/-- A whole number. -/
def ofInt (n : Int) : Decimal := ⟨n < 0, n.natAbs, 0⟩

end Decimal

end DesignChart
