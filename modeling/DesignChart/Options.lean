import DesignChart.RangePolicy

/-!
The settings a chart is built with.
-/

namespace DesignChart

/-- Settings for one chart, or for all charts of a dictionary. -/
structure Options (α : Type) where
  /-- The dimension of the grid that runs along its first variable. -/
  axis : Option Nat := none
  /-- What becomes of coordinates out of range. -/
  bounds : RangePolicy α := .raise
deriving BEq, DecidableEq

end DesignChart
