import DesignChart.Dictionary

/-!
# Charts without guarantees

A chart carries the proofs that its numbers of samples and values agree, and is read without a
check. Here is the same program over plain arrays, in which nothing is known about the data and
every step that relies on them may break down: an entry that is looked up may be missing, the
numbers of a matrix may not fill it, a difference may fall below zero, and a range that a coordinate
is moved into may be turned round.
-/

namespace DesignChart

/-- A computation that may break down (`none`) before it succeeds or fails. -/
abbrev Run (ε β : Type) := ExceptT ε Option β

namespace Run

variable {ε β : Type}

/-- Ends with the outcome of a computation that does not break down. -/
def ended (outcome : Except ε β) : Run ε β := .mk (some outcome)

/-- Goes on with what was found, and breaks down where nothing was. -/
def found (x : Option β) : Run ε β := .mk (x.map .ok)

end Run

open Run (ended found)

/-- The difference, which must not fall below zero. -/
def minus? (n k : Nat) : Option Nat := if k ≤ n then some (n - k) else none

/-- Samples that are taken for those of an axis. -/
structure RawAxis (α : Type) where
  samples : Array α
  reversed : Bool

/-- Samples and values that are taken for those of a curve. -/
structure RawCurve (α : Type) where
  axis : RawAxis α
  values : Array α

/-- The samples of a chart over two variables. -/
inductive RawSurface (α : Type)
  | grid (xAxis yAxis : RawAxis α) (values : Matrix α)
  | family (outerVariable : Coordinate) (outer : RawAxis α) (curves : Array (RawCurve α))

inductive RawChart (α : Type)
  | curve (curve : RawCurve α)
  | surface (surface : RawSurface α) (source : GridSource)

structure RawInterpolant (α : Type) where
  chart : RawChart α
  bounds : RangePolicy α

section Construction

variable {α β : Type}

def RawAxis.reorder (axis : RawAxis α) (data : Array β) : Array β :=
  if axis.reversed then data.reverse else data

namespace Matrix

/-- The matrix with the entries that `f` finds. -/
def ofFn? (rows columns : Nat) (f : Nat → Nat → Option α) : Option (Matrix α) := do
  let entries ← Vector.ofFnM fun i : Fin rows => Vector.ofFnM fun j : Fin columns => f i j
  return ⟨rows, columns, entries⟩

/-- The rows of one length, put one after the other and cut up again. -/
def rawOfRows (rows : Array (Array α)) : Run (Fault α) (Matrix α) :=
  if 0 < rows.size then do
    let first ← found rows[0]?
    match rows.toList.zipIdx.find? (fun entry => entry.1.size ≠ first.size) with
    | some (row, i) => throw (.raggedRow first.size i row.size)
    | none => found (ofRowMajor? rows.size first.size rows.flatten)
  else
    throw .noRows

def rawReverseRows (m : Matrix α) : Option (Matrix α) :=
  ofFn? m.rows m.columns fun i j => do m.entry? (← minus? (← minus? m.rows 1) i) j

def rawReverseColumns (m : Matrix α) : Option (Matrix α) :=
  ofFn? m.rows m.columns fun i j => do m.entry? i (← minus? (← minus? m.columns 1) j)

end Matrix

variable [Scalar α]

/-- The axis through `samples`. -/
def RawAxis.ofSamples (samples : Array α) : Run (Fault α) (RawAxis α) :=
  if 2 ≤ samples.size then
    match samples.find? (fun v => !Scalar.isFinite v) with
    | some v => throw (.sampleNotFinite v)
    | none => do
      let reversed := decide ((← found samples[1]?) < (← found samples[0]?))
      if Axis.linked (fun a b => if reversed then b < a else a < b) samples.toList then
        return ⟨if reversed then samples.reverse else samples, reversed⟩
      else
        throw (.samplesNotMonotonic samples)
  else
    throw (.tooFewSamples samples.size)

/-- The curve through the points `(xs[i], ys[i])`. The number of values is checked twice: as given,
and once they are in order. -/
def RawCurve.ofSamples (xs ys : Array α) (xName yName : String) : Run (Error α) (RawCurve α) := do
  let axis ← (RawAxis.ofSamples xs).adapt (Error.shape xName)
  if xs.size = ys.size then
    let values := axis.reorder ys
    if axis.samples.size = values.size then
      return ⟨axis, values⟩
    else
      throw (.shape yName (.valueCount axis.samples.size values.size))
  else
    throw (.shape yName (.unpaired xName xs.size ys.size))

/-- The value grid over `xs` and `ys`. Its shape is checked as given, and once it is in order. -/
def RawSurface.gridOf (xs ys : Array α) (written : Matrix α) (orientation : Orientation) :
    Run (Error α) (RawSurface α) := do
  let xAxis ← (RawAxis.ofSamples xs).adapt (Error.shape "x")
  let yAxis ← (RawAxis.ofSamples ys).adapt (Error.shape "y")
  let expected := (xAxis.samples.size, yAxis.samples.size)
  let values := written.orient orientation
  if values.shape = expected then
    let values ← if xAxis.reversed then found values.rawReverseRows else pure values
    let values ← if yAxis.reversed then found values.rawReverseColumns else pure values
    if values.shape = expected then
      return .grid xAxis yAxis values
    else
      throw (.shape "z" (.gridShape expected values.shape))
  else
    throw (.shape "z" (.gridMismatch written.shape .x .y expected orientation))

/-- The curves through each row of `rows` and the shared `values`. -/
def RawCurve.ofRows (rows : Matrix α) (values : Array α) (inner : Coordinate) :
    Run (Error α) (List (RawCurve α)) :=
  (List.range rows.rows).mapM fun i => do
    let row ← found (rows.row? i)
    (RawCurve.ofSamples row values inner.name "z").adapt (Error.inRow i)

/-- The family with one curve for each sample of `outerVariable`. -/
def RawSurface.familyOf (outerVariable : Coordinate) (outerSamples : Array α) (written : Matrix α)
    (orientation : Orientation) (values : Array α) : Run (Error α) (RawSurface α) := do
  let inner := outerVariable.other
  let outer ← (RawAxis.ofSamples outerSamples).adapt (Error.shape outerVariable.name)
  let expected := (outer.samples.size, values.size)
  let rows := written.orient orientation
  if rows.shape = expected then
    let curves ← RawCurve.ofRows rows values inner
    return .family outerVariable outer (outer.reorder curves.toArray)
  else
    throw (.shape inner.name (.gridMismatch written.shape outerVariable.argument .z expected
      orientation))

namespace RawChart

def curveOf (x y : Readings α) (axis : Option Nat) : Run (Error α) (RawCurve α) := do
  ended (Chart.checkCurveAxis axis)
  let xs ← ended (Chart.curveVector .x x)
  let ys ← ended (Chart.curveVector .y y)
  RawCurve.ofSamples xs ys "x" "y"

def gridOf (xs ys : Array α) (rows : Array (Array α)) (axis : Option Nat) :
    Run (Error α) (RawChart α) := do
  let orientation ← ended (Chart.orientationOf .z axis)
  let written ← (Matrix.rawOfRows rows).adapt (Error.shape "z")
  return surface (← RawSurface.gridOf xs ys written orientation) ⟨.z, orientation⟩

def familyOf (outerVariable : Coordinate) (outer : Array α) (rows : Array (Array α))
    (values : Array α) (axis : Option Nat) : Run (Error α) (RawChart α) := do
  let inner := outerVariable.other.argument
  let orientation ← ended (Chart.orientationOf inner axis)
  let written ← (Matrix.rawOfRows rows).adapt (Error.shape inner.name)
  return surface (← RawSurface.familyOf outerVariable outer written orientation values)
    ⟨inner, orientation⟩

/-- The chart that the arguments tabulate. -/
def ofReadings (x y : Readings α) (z : Option (Readings α)) (axis : Option Nat) :
    Run (Error α) (RawChart α) :=
  match x, y, z with
  | x, y, none => curve <$> curveOf x y axis
  | .vector xs, .vector ys, some (.grid rows) => gridOf xs ys rows axis
  | .vector xs, .grid rows, some (.vector zs) => familyOf .x xs rows zs axis
  | .grid rows, .vector ys, some (.vector zs) => familyOf .y ys rows zs axis
  | x, y, some z => throw (Chart.wrongGrids x y z)

end RawChart

def RawInterpolant.build (x y : Readings α) (z : Option (Readings α)) (options : Options α) :
    Run (Error α) (RawInterpolant α) := do
  return ⟨← RawChart.ofReadings x y z options.axis, options.bounds⟩

/-- The interpolants of all keys, key by key. -/
def RawInterpolant.buildEntries (x y : Input (Readings α)) (z : Option (Input (Readings α)))
    (options : Options α) : Run (Error α) (List (Key × RawInterpolant α)) := do
  let keys ← ended (Dictionary.commonKeys ((x :: y :: z.toList).filterMap Input.keys?))
  (keys.getD [Key.unit]).mapM fun key => do
    let x ← ended (x.get key)
    let y ← ended (y.get key)
    let z ← match z with
      | none => pure none
      | some z => some <$> ended (z.get key)
    let interpolant ← (build x y z options).adapt (Error.keyBuild key)
    return (key, interpolant)

end Construction

section Evaluation

variable {α : Type} [Scalar α]

namespace RawAxis

def range (axis : RawAxis α) : Option (Interval α) := do
  return ⟨← axis.samples[0]?, ← axis.samples[← minus? axis.samples.size 1]?⟩

/-- Halves the stretch of samples from `low` to `high` until they are next to each other. -/
def bisect (axis : RawAxis α) (v : α) (low high : Nat) : Option Nat :=
  if 1 < high - low then
    match axis.samples[(low + high) / 2]? with
    | none => none
    | some middle =>
      if middle ≤ v then bisect axis v ((low + high) / 2) high
      else bisect axis v low ((low + high) / 2)
  else
    (minus? high low).map fun _ => low
termination_by high - low

def locate (axis : RawAxis α) (v : α) : Option Nat := do
  if v ≤ (← axis.samples[0]?) then
    return 0
  else if (← axis.samples[← minus? axis.samples.size 1]?) ≤ v then
    minus? axis.samples.size 2
  else
    axis.bisect v 0 (← minus? axis.samples.size 1)

def fraction (axis : RawAxis α) (index : Nat) (v : α) : Option α := do
  let start ← axis.samples[index]?
  let stop ← axis.samples[index + 1]?
  return (v - start) / (stop - start)

end RawAxis

def RawCurve.eval (curve : RawCurve α) (x : α) : Option α := do
  let i ← curve.axis.locate x
  return blend (← curve.values[i]?) (← curve.values[i + 1]?) (← curve.axis.fraction i x)

def Matrix.rawEval (values : Matrix α) (xAxis yAxis : RawAxis α) (x y : α) : Option α := do
  let i ← xAxis.locate x
  let j ← yAxis.locate y
  let t ← xAxis.fraction i x
  let u ← yAxis.fraction j y
  let lower := blend (← values.entry? i j) (← values.entry? (i + 1) j) t
  let upper := blend (← values.entry? i (j + 1)) (← values.entry? (i + 1) (j + 1)) t
  return blend lower upper u

/-- Applies the policy to a coordinate. It is not moved into a range that is turned round. -/
def RangePolicy.rawApply (policy : RangePolicy α) (name : String) (range : Interval α) (v : α) :
    Run (Error α) (Admission α) :=
  if v ∈ range then
    return .inside v
  else if Scalar.isNaN v then
    throw (.outOfDomain name v range)
  else
    match policy with
    | raise => throw (.outOfDomain name v range)
    | fill value => return .answered value
    | clamp => found (if range.lower ≤ range.upper then some (.inside (range.clamp v)) else none)

def RawCurve.evalWithin (curve : RawCurve α) (policy : RangePolicy α) (coordinate : Coordinate)
    (v : α) : Run (Error α) (Admission α) := do
  match ← policy.rawApply coordinate.name (← found curve.axis.range) v with
  | .inside v => return .inside (← found (curve.eval v))
  | .answered value => return .answered value

namespace RawSurface

def gridWithin (xAxis yAxis : RawAxis α) (values : Matrix α) (policy : RangePolicy α) (x y : α) :
    Run (Error α) (Admission α) := do
  match ← policy.rawApply "x" (← found xAxis.range) x,
      ← policy.rawApply "y" (← found yAxis.range) y with
  | .inside x, .inside y => return .inside (← found (values.rawEval xAxis yAxis x y))
  | .answered value, _ | _, .answered value => return .answered value

def endWithin (policy : RangePolicy α) (inner : Coordinate) (v : α) (weighted : Bool)
    (curve : RawCurve α) : Run (Error α) (Admission α) :=
  if weighted then curve.evalWithin policy inner v else return .inside 0

/-- The value of a family between the two curves cut out of it. -/
def familyWithin (outerVariable : Coordinate) (outer : RawAxis α) (curves : Array (RawCurve α))
    (policy : RangePolicy α) (w v : α) : Run (Error α) (Admission α) := do
  match ← policy.rawApply outerVariable.name (← found outer.range) w with
  | .answered value => return .answered value
  | .inside w =>
    let k ← found (outer.locate w)
    let t ← found (outer.fraction k w)
    let first ← found curves[k]?
    let second ← found curves[k + 1]?
    match ← endWithin policy outerVariable.other v (t < 1) first with
    | .answered value => return .answered value
    | .inside start =>
      match ← endWithin policy outerVariable.other v (0 < t) second with
      | .answered value => return .answered value
      | .inside stop => return .inside (blend start stop t)

def evalWithin (surface : RawSurface α) (policy : RangePolicy α) (x y : α) :
    Run (Error α) (Admission α) :=
  match surface with
  | grid xAxis yAxis values => gridWithin xAxis yAxis values policy x y
  | family .x outer curves => familyWithin .x outer curves policy x y
  | family .y outer curves => familyWithin .y outer curves policy y x

end RawSurface

/-- The value at a point with any number of coordinates. -/
def RawInterpolant.eval (interpolant : RawInterpolant α) (point : List α) : Run (Error α) α :=
  match point, interpolant.chart with
  | [x], .curve curve => Admission.value <$> curve.evalWithin interpolant.bounds .x x
  | [x, y], .surface surface _ => Admission.value <$> surface.evalWithin interpolant.bounds x y
  | _, .curve _ => throw (.arity 1 point.length)
  | _, .surface .. => throw (.arity 2 point.length)

end Evaluation

end DesignChart
