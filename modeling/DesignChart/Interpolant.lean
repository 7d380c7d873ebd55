import DesignChart.Chart
import DesignChart.Options

/-!
Interpolants: charts that are read within their range only.

A chart knows how to read itself everywhere; an interpolant asks its policy about each coordinate
first. On a family of curves the outer coordinate is asked about once, and the inner one for each
curve that has a weight in the answer, so that a reading on a curve needs to lie within the range
of that curve alone.
-/

namespace DesignChart

/-- A chart and what becomes of coordinates out of its range. -/
structure Interpolant (α : Type) where
  chart : Chart α
  bounds : RangePolicy α

instance {α : Type} [BEq α] : BEq (Interpolant α) where
  beq interpolant other := interpolant.chart == other.chart && interpolant.bounds == other.bounds

variable {α : Type} [Scalar α]

/-- The value of a curve over `coordinate`, if its range admits `v`. -/
def Curve.evalWithin (curve : Curve α) (policy : RangePolicy α) (coordinate : Coordinate) (v : α) :
    Except (Error α) (Admission α) :=
  Admission.map curve.eval <$> policy.apply coordinate.name curve.range v

/-- The value of a grid, if its axes admit `x` and `y`. -/
def ValueGrid.evalWithin (grid : ValueGrid α) (policy : RangePolicy α) (x y : α) :
    Except (Error α) (Admission α) := do
  match ← policy.apply "x" grid.xAxis.range x, ← policy.apply "y" grid.yAxis.range y with
  | .inside x, .inside y => return .inside (grid.eval x y)
  | .answered value, _ | _, .answered value => return .answered value

/-- The share of one curve in the value of a family: none where the curve has no weight. -/
def CurveFamily.endWithin (policy : RangePolicy α) (inner : Coordinate) (v : α) (weighted : Bool)
    (curve : Curve α) : Except (Error α) (Admission α) :=
  if weighted then curve.evalWithin policy inner v else .ok (.inside 0)

/-- The value of a family, if its outer axis admits `outer` and the curves with a weight there
admit `inner`: the values of the two curves around `outer`, blended between them. -/
def CurveFamily.evalWithin (family : CurveFamily α) (policy : RangePolicy α) (outer inner : α) :
    Except (Error α) (Admission α) := do
  match ← policy.apply family.outerVariable.name family.outer.range outer with
  | .answered value => return .answered value
  | .inside outer =>
    let cell := family.outer.locate outer
    have := cell.next_lt
    have := family.size_curves
    let t := cell.fraction outer
    let first := family.curves[cell.index]
    let second := family.curves[cell.index + 1]
    match ← endWithin policy family.outerVariable.other inner (t < 1) first with
    | .answered value => return .answered value
    | .inside start =>
      match ← endWithin policy family.outerVariable.other inner (0 < t) second with
      | .answered value => return .answered value
      | .inside stop => return .inside (blend start stop t)

/-- The value of a chart over two variables at `(x, y)`. -/
def Surface.evalWithin (surface : Surface α) (policy : RangePolicy α) (x y : α) :
    Except (Error α) (Admission α) :=
  match surface with
  | .grid g => g.evalWithin policy x y
  | .family f =>
    match f.outerVariable with
    | .x => f.evalWithin policy x y
    | .y => f.evalWithin policy y x

namespace Interpolant

/-- The interpolant of the chart that the arguments tabulate. -/
def build (x y : Readings α) (z : Option (Readings α)) (options : Options α) :
    Except (Error α) (Interpolant α) := do
  return ⟨← Chart.ofReadings x y z options.axis, options.bounds⟩

/-- The value of a curve at `x`. -/
def eval1 (interpolant : Interpolant α) (x : α) : Except (Error α) α :=
  match interpolant.chart with
  | .curve curve => Admission.value <$> curve.evalWithin interpolant.bounds .x x
  | .surface .. => .error (.arity 2 1)

/-- The value of a chart over two variables at `(x, y)`. -/
def eval2 (interpolant : Interpolant α) (x y : α) : Except (Error α) α :=
  match interpolant.chart with
  | .curve _ => .error (.arity 1 2)
  | .surface surface _ => Admission.value <$> surface.evalWithin interpolant.bounds x y

/-- The value at a point with any number of coordinates. -/
def eval (interpolant : Interpolant α) (point : List α) : Except (Error α) α :=
  match point, interpolant.chart with
  | [x], .curve _ => interpolant.eval1 x
  | [x, y], .surface .. => interpolant.eval2 x y
  | _, chart => .error (.arity chart.dimension point.length)

end Interpolant

end DesignChart
