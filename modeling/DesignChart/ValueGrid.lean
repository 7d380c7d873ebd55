import DesignChart.Axis.Cell
import DesignChart.Matrix

/-!
Value grids: values over two axes, one for each pair of samples.

Within a cell the value is blended along `x` on both edges of the cell and then along `y` between
the edges. Like a curve, a value grid can be read beyond its axes too.
-/

namespace DesignChart

/-- One value for each pair of an `x` sample and a `y` sample, rows following `x`. -/
structure ValueGrid (α : Type) where
  xAxis : Axis α
  yAxis : Axis α
  values : Matrix α
  rows_values : values.rows = xAxis.samples.size
  columns_values : values.columns = yAxis.samples.size

namespace ValueGrid

variable {α : Type} [Scalar α]

/-- The value grid with the given values, in the order of the samples of both axes. -/
def ofAxes (xAxis yAxis : Axis α) (values : Matrix α) : Except (Fault α) (ValueGrid α) :=
  if h : values.rows = xAxis.samples.size ∧ values.columns = yAxis.samples.size then
    .ok ⟨xAxis, yAxis, values, h.1, h.2⟩
  else
    .error (.gridShape (xAxis.samples.size, yAxis.samples.size) values.shape)

/-- The value grid over `xs` and `ys`, each tabulated in either direction, with values written
either way round. -/
def ofSamples (xs ys : Array α) (written : Matrix α) (orientation : Orientation) :
    Except (Error α) (ValueGrid α) := do
  let xAxis ← blame "x" (Axis.ofSamples xs)
  let yAxis ← blame "y" (Axis.ofSamples ys)
  let values := written.orient orientation
  if h : values.rows = xAxis.samples.size ∧ values.columns = yAxis.samples.size then
    .ok ⟨xAxis, yAxis, values.turn xAxis.reversed yAxis.reversed, by simpa using h.1,
      by simpa using h.2⟩
  else
    .error (.shape "z" (.gridMismatch written.shape .x .y
      (xAxis.samples.size, yAxis.samples.size) orientation))

/-- The value blended over the cell of `(x, y)`. -/
def eval (grid : ValueGrid α) (x y : α) : α :=
  let i := grid.xAxis.locate x
  let j := grid.yAxis.locate y
  have hi : i.index + 1 < grid.values.rows := grid.rows_values ▸ i.next_lt
  have hj : j.index + 1 < grid.values.columns := grid.columns_values ▸ j.next_lt
  let t := i.fraction x
  let u := j.fraction y
  let lower := blend (grid.values.entry i.index j.index (by omega) (by omega))
    (grid.values.entry (i.index + 1) j.index hi (by omega)) t
  let upper := blend (grid.values.entry i.index (j.index + 1) (by omega) hj)
    (grid.values.entry (i.index + 1) (j.index + 1) hi hj) t
  blend lower upper u

instance [BEq α] : BEq (ValueGrid α) where
  beq grid other :=
    grid.xAxis == other.xAxis && grid.yAxis == other.yAxis && grid.values == other.values

end ValueGrid

end DesignChart
