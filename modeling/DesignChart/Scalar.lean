/-!
The numbers a table holds.

Everything about tables is written once for any type of numbers with the four operations and an
order, so that one text serves doubles and exact rationals alike. No law is asked of the
operations: doubles round, and a double may be no number at all.
-/

namespace DesignChart

/-- Numbers that samples, values and coordinates are given in. -/
class Scalar (α : Type) extends Zero α, One α, Add α, Sub α, Mul α, Div α, LE α, LT α where
  decidableLE : DecidableLE α
  decidableLT : DecidableLT α
  /-- A number proper: neither infinite nor NaN. -/
  isFinite : α → Bool
  /-- No number at all: incomparable with every number. -/
  isNaN : α → Bool

instance instDecidableLE {α : Type} [Scalar α] : DecidableLE α := Scalar.decidableLE

instance instDecidableLT {α : Type} [Scalar α] : DecidableLT α := Scalar.decidableLT

instance : Scalar Float where
  zero := 0
  one := 1
  decidableLE := inferInstance
  decidableLT := inferInstance
  isFinite := Float.isFinite
  isNaN := Float.isNaN

/-- The point a fraction `t` of the way from `start` to `stop`, as a weighted mean, so that the
fractions `0` and `1` give back the two ends themselves. -/
def blend {α : Type} [Scalar α] (start stop t : α) : α :=
  (1 - t) * start + t * stop

end DesignChart
