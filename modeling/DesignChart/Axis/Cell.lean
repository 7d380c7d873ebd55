import DesignChart.Axis

/-!
Cells of an axis: the gaps between neighbouring samples, and the search for the one to read at.

Every number is read in some cell. Those below the axis belong to the first cell and those above
it to the last, so a blend over the cell of a number is also the extrapolation beyond the ends.
-/

namespace DesignChart.Axis

variable {α : Type} [Scalar α]

/-- The gap between sample `index` and the next one. -/
structure Cell (axis : Axis α) where
  index : Nat
  next_lt : index + 1 < axis.samples.size

namespace Cell

variable {axis : Axis α}

/-- The sample at which a cell begins. -/
def start (cell : Cell axis) : α :=
  have := cell.next_lt
  axis.samples[cell.index]

/-- The sample at which a cell ends. -/
def stop (cell : Cell axis) : α :=
  have := cell.next_lt
  axis.samples[cell.index + 1]

/-- How far along a cell `v` lies: `0` at its start, `1` at its end. -/
def fraction (cell : Cell axis) (v : α) : α := (v - cell.start) / (cell.stop - cell.start)

end Cell

/-- The cell of a given index, if there is one. -/
def cell? (axis : Axis α) (index : Nat) : Option (Cell axis) :=
  if h : index + 1 < axis.samples.size then some ⟨index, h⟩ else none

/-- Halves the stretch of samples from `low` to `high` until one cell is left, keeping the half
that begins at or before `v`. -/
def bisect (axis : Axis α) (v : α) (low high : Nat) (low_lt : low < high)
    (high_lt : high < axis.samples.size) : Cell axis :=
  if h : 1 < high - low then
    if axis.samples[(low + high) / 2] ≤ v then
      bisect axis v ((low + high) / 2) high (by omega) high_lt
    else
      bisect axis v low ((low + high) / 2) (by omega) (by omega)
  else
    ⟨low, by omega⟩
termination_by high - low

/-- The cell that `v` is read in: the last one that begins at or before `v`, or the first. -/
def locate (axis : Axis α) (v : α) : Cell axis :=
  have := axis.two_le_size
  if v ≤ axis.least then
    ⟨0, by omega⟩
  else if axis.greatest ≤ v then
    ⟨axis.samples.size - 2, by omega⟩
  else
    axis.bisect v 0 (axis.samples.size - 1) (by omega) axis.last_lt

end DesignChart.Axis
