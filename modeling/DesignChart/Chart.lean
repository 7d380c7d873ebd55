import DesignChart.CurveFamily
import DesignChart.Readings
import DesignChart.ValueGrid

/-!
Charts: what three arguments tabulate.

Without `z` a chart is a curve of `y` over `x`. With `z` exactly one argument is a grid, and which
one it is decides how the chart is laid out: a grid for `z` holds values over `x` and `y`, with the
rows along `x`; a grid for `y` holds for each `x` the `y` at which the curve of that `x` takes the
values `z`; a grid for `x` holds for each `y` the `x` at which it does. A grid may also be written
the other way round, and is then transposed first.
-/

namespace DesignChart

/-- The samples of a chart over two variables. -/
inductive Surface (α : Type)
  | grid (values : ValueGrid α)
  | family (curves : CurveFamily α)

/-- A chart over one variable or two. With two, it tells where its grid was taken from. -/
inductive Chart (α : Type)
  | curve (curve : Curve α)
  | surface (surface : Surface α) (source : GridSource)

/-- The range of each variable, `x` first. A family covers its inner range as a whole, but not
each of its curves need do so. -/
def Surface.domain {α : Type} [Scalar α] : Surface α → List (Interval α)
  | grid g => [g.xAxis.range, g.yAxis.range]
  | family f =>
    match f.outerVariable with
    | .x => [f.outer.range, f.innerRange]
    | .y => [f.innerRange, f.outer.range]

instance {α : Type} [BEq α] : BEq (Surface α) where
  beq
    | .grid g, .grid other => g == other
    | .family f, .family other => f == other
    | _, _ => false

namespace Chart

variable {α : Type} [Scalar α]

/-- The vector that a curve needs for `argument`. -/
def curveVector (argument : Argument) : Readings α → Except (Error α) (Array α)
  | .vector values => .ok values
  | .grid rows => .error (.shape argument.name (.gridForCurve (Readings.grid rows).shape))

/-- A curve has the dimension 0 only, which is also what is taken when none is given. -/
def checkCurveAxis : Option Nat → Except (Error α) Unit
  | none | some 0 => .ok ()
  | some axis => .error (.shape "axis" (.noSuchAxisOfCurve axis))

/-- The curve of `y` over `x`. -/
def curveOf (x y : Readings α) (axis : Option Nat) : Except (Error α) (Curve α) := do
  checkCurveAxis axis
  let xs ← curveVector .x x
  let ys ← curveVector .y y
  Curve.ofSamples xs ys "x" "y"

/-- The way the grid for `argument` is written: with dimension 0 along its first variable when no
dimension is given. -/
def orientationOf (argument : Argument) (axis : Option Nat) : Except (Error α) Orientation :=
  match Orientation.ofAxis? (axis.getD 0) with
  | some orientation => .ok orientation
  | none => .error (.shape "axis" (.noSuchAxisOfGrid (axis.getD 0) argument))

/-- What is wrong with three arguments of which not exactly one is a grid. The last grid is blamed,
and `z` where there is none. -/
def wrongGrids (x y z : Readings α) : Error α :=
  let grids := ([(Argument.x, x), (Argument.y, y), (Argument.z, z)].filter (·.2.isGrid)).map (·.1)
  match grids.getLast? with
  | none => .shape "z" .gridMissing
  | some last => .shape last.name (.severalGrids grids)

/-- The values `rows` over `xs` and `ys`. -/
def gridOf (xs ys : Array α) (rows : Array (Array α)) (axis : Option Nat) :
    Except (Error α) (Chart α) := do
  let orientation ← orientationOf .z axis
  let written ← blame "z" (Matrix.ofRows rows)
  return surface (.grid (← ValueGrid.ofSamples xs ys written orientation)) ⟨.z, orientation⟩

/-- The curves through `rows` and `values`, one for each sample of `outerVariable`. -/
def familyOf (outerVariable : Coordinate) (outer : Array α) (rows : Array (Array α))
    (values : Array α) (axis : Option Nat) : Except (Error α) (Chart α) := do
  let inner := outerVariable.other.argument
  let orientation ← orientationOf inner axis
  let written ← blame inner.name (Matrix.ofRows rows)
  return surface
    (.family (← CurveFamily.ofSamples outerVariable outer written orientation values))
    ⟨inner, orientation⟩

/-- The chart that the arguments tabulate. -/
def ofReadings (x y : Readings α) (z : Option (Readings α)) (axis : Option Nat) :
    Except (Error α) (Chart α) :=
  match x, y, z with
  | x, y, none => curve <$> curveOf x y axis
  | .vector xs, .vector ys, some (.grid rows) => gridOf xs ys rows axis
  | .vector xs, .grid rows, some (.vector zs) => familyOf .x xs rows zs axis
  | .grid rows, .vector ys, some (.vector zs) => familyOf .y ys rows zs axis
  | x, y, some z => .error (wrongGrids x y z)

/-- The number of variables. -/
def dimension : Chart α → Nat
  | curve _ => 1
  | surface .. => 2

/-- The range of each variable, `x` first. -/
def domain : Chart α → List (Interval α)
  | curve c => [c.range]
  | surface s _ => s.domain

instance [BEq α] : BEq (Chart α) where
  beq
    | curve c, curve other => c == other
    | surface s source, surface other otherSource => s == other && source == otherSource
    | _, _ => false

end Chart

end DesignChart
