import DesignChart.Axis.Cell

/-!
Curves: values over one axis, joined by straight lines.

A curve can be read at every number. Beyond its axis it goes on as the line through its outermost
cell; whether such a reading is wanted is not decided here.
-/

namespace DesignChart

/-- One value for each sample of an axis. -/
structure Curve (α : Type) where
  axis : Axis α
  values : Array α
  size_values : values.size = axis.samples.size

namespace Curve

variable {α : Type} [Scalar α]

/-- The curve with the given values, in the order of the samples of `axis`. -/
def ofAxis (axis : Axis α) (values : Array α) : Except (Fault α) (Curve α) :=
  if h : values.size = axis.samples.size then
    .ok ⟨axis, values, h⟩
  else
    .error (.valueCount axis.samples.size values.size)

/-- The curve through the points `(xs[i], ys[i])`, tabulated in either direction. -/
def ofSamples (xs ys : Array α) (xName yName : String) : Except (Error α) (Curve α) := do
  let axis ← blame xName (Axis.ofSamples xs)
  if h : ys.size = axis.samples.size then
    .ok ⟨axis, axis.reorder ys, by simp [h]⟩
  else
    .error (.shape yName (.unpaired xName axis.samples.size ys.size))

/-- The range of the axis. -/
def range (curve : Curve α) : Interval α := curve.axis.range

/-- The value on the straight line over the cell of `x`. -/
def eval (curve : Curve α) (x : α) : α :=
  let cell := curve.axis.locate x
  have := cell.next_lt
  have := curve.size_values
  blend curve.values[cell.index] curve.values[cell.index + 1] (cell.fraction x)

instance [BEq α] : BEq (Curve α) where
  beq curve other := curve.axis == other.axis && curve.values == other.values

end Curve

end DesignChart
