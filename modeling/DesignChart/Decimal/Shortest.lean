import DesignChart.Decimal

/-!
The shortest decimal of a double: the fewest digits that read back as the same double.

Powers of ten are tried from the coarsest on. On the grid of the multiples of each, the two
neighbours of the double are looked at, the nearer one first; of two equally near ones that is the
greater. The first that reads back is taken. Seventeen digits are always enough; should none of the
powers tried do, the double is written out in full, which reads back in any case.
-/

namespace DesignChart.Decimal

/-- The neighbours of a fraction among the natural numbers, the nearer first, and of two equally
near ones the greater. -/
def neighbours (num den : Nat) : List Nat :=
  let below := num / den
  if 2 * (num % den) < den then [below, below + 1] else [below + 1, below]

/-- The multiple of `10 ^ exponent` that is nearest among those that read back as the finite
magnitude `bits`. -/
def onGrid? (bits : Nat) (exponent : Int) : Option Decimal :=
  let (num, den) := Binary64.toFraction bits
  let (n, d) := Binary64.power 10 exponent
  ((neighbours (num * d) (den * n)).map (⟨false, ·, exponent⟩)).find? (·.magnitude = bits)

/-- Powers of ten, from one above the fraction down to that of its seventeenth digit and beyond. -/
def gridExponents (num den : Nat) : List Int :=
  (List.range 20).map fun (i : Nat) => 1 + digitCount num - digitCount den - (i : Int)

/-- The number a finite magnitude stands for, written out in full. -/
def exact (bits : Nat) : Decimal :=
  let q := Binary64.exponent bits
  if 0 ≤ q then ⟨false, Binary64.significand bits * Nat.pow 2 q.toNat, 0⟩
  else ⟨false, Binary64.significand bits * Nat.pow 5 (-q).toNat, q⟩

/-- The shortest decimal of a finite magnitude. -/
def shortestOf (bits : Nat) : Decimal :=
  if bits = 0 then ⟨false, 0, 0⟩
  else
    let (num, den) := Binary64.toFraction bits
    ((gridExponents num den).findSome? (onGrid? bits)).getD (exact bits)

/-- The shortest decimal of a finite double. -/
def shortest (v : Float) : Decimal :=
  { shortestOf (Binary64.magnitude v) with negative := Binary64.isNegative v }

end DesignChart.Decimal
