import DesignChart.Scalar

/-!
Closed ranges of numbers: the reach of an axis, and the region in which a chart answers.
-/

namespace DesignChart

/-- The numbers from `lower` to `upper`, both included. -/
structure Interval (α : Type) where
  lower : α
  upper : α
deriving BEq, DecidableEq

namespace Interval

variable {α : Type} [Scalar α]

instance : Membership α (Interval α) where
  mem range v := range.lower ≤ v ∧ v ≤ range.upper

theorem mem_def {range : Interval α} {v : α} :
    v ∈ range ↔ range.lower ≤ v ∧ v ≤ range.upper :=
  Iff.rfl

instance (v : α) (range : Interval α) : Decidable (v ∈ range) :=
  decidable_of_iff' _ mem_def

/-- The number of `range` nearest to `v`. A `v` that is no number has no nearest one and is kept. -/
def clamp (range : Interval α) (v : α) : α :=
  if v < range.lower then range.lower
  else if range.upper < v then range.upper
  else v

/-- The smallest range around two. Of ends that compare equal those of `other` are taken. -/
def hull (range other : Interval α) : Interval α where
  lower := if range.lower < other.lower then range.lower else other.lower
  upper := if other.upper < range.upper then range.upper else other.upper

end Interval

end DesignChart
