import DesignChart.Decimal.Shortest

/-!
How doubles are written in messages: their shortest decimals, in one of two notations.
-/

namespace DesignChart.Decimal

/-- A way to write decimals down. -/
structure Notation where
  /-- A whole number is written with a zero after the point. -/
  pointed : Bool
  /-- A number whose first digit has this power of ten is written without an exponent. -/
  writtenOut : Int → Bool

namespace Notation

/-- Never an exponent, and a point only before digits. -/
def plain : Notation := ⟨false, fun _ => true⟩

/-- Always a point or an exponent; an exponent from `10 ^ 16` on and below `10 ^ -4`. -/
def pointedOrScientific : Notation := ⟨true, fun e => -4 ≤ e && e < 16⟩

def zeros (count : Nat) : String := "".pushn '0' count

/-- Digits with a power of ten, without an exponent. -/
def positional (pointed : Bool) (digits : String) (exponent : Int) : String :=
  let places := (-exponent).toNat
  if places = 0 then
    digits ++ zeros exponent.toNat ++ (if pointed then ".0" else "")
  else
    let padded := zeros (places + 1 - digits.length) ++ digits
    let whole := padded.length - places
    (padded.take whole).copy ++ "." ++ (padded.drop whole).copy

/-- One digit before the point, the others after it, and the power of ten of the first. -/
def scientific (digits : String) (leadingExponent : Int) : String :=
  let rest := (digits.drop 1).copy
  (digits.take 1).copy ++ (if rest.isEmpty then "" else "." ++ rest) ++ "e" ++
    toString leadingExponent

/-- The text of a decimal. -/
def text (style : Notation) (d : Decimal) : String :=
  let digits := toString d.digits
  (if d.negative then "-" else "") ++
    if d.digits = 0 || style.writtenOut d.leadingExponent then
      positional style.pointed digits d.exponent
    else
      scientific digits d.leadingExponent

/-- The text of a double. -/
def floatText (style : Notation) (v : Float) : String :=
  if v.isNaN then "NaN"
  else if v.isInf then (if v < 0 then "-inf" else "inf")
  else style.text (shortest v)

end Notation

end DesignChart.Decimal
