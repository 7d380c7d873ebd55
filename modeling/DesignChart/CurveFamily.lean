import DesignChart.Curve
import DesignChart.Matrix

/-!
Families of curves: one curve for each sample of an outer variable.

The curves run along the other, inner variable. They may reach over different ranges, but they all
take the same values, in the order in which these are tabulated.
-/

namespace DesignChart

/-- A curve for each sample of `outer`, in the order of the samples. -/
structure CurveFamily (α : Type) where
  /-- The variable that selects a curve. -/
  outerVariable : Coordinate
  outer : Axis α
  curves : Array (Curve α)
  size_curves : curves.size = outer.samples.size

namespace CurveFamily

variable {α : Type} [Scalar α]

/-- Curves through each row of `rows`, taken as samples, and the shared `values`. -/
def rowCurves (rows : Matrix α) (values : Array α) (inner : Coordinate) :
    Except (Error α) (List (Curve α)) :=
  (List.finRange rows.rows).mapM fun i =>
    (Curve.ofSamples (rows.row i) values inner.name "z").mapError (Error.inRow i.val)

theorem length_of_mapM_eq_ok {ε β γ : Type} {f : β → Except ε γ} {inputs : List β}
    {outputs : List γ} (h : inputs.mapM f = .ok outputs) : outputs.length = inputs.length := by
  induction inputs generalizing outputs with
  | nil =>
    cases h
    rfl
  | cons a rest ih =>
    rw [List.mapM_cons] at h
    cases ha : f a with
    | error e =>
      rw [ha] at h
      cases h
    | ok b =>
      cases hr : rest.mapM f with
      | error e =>
        rw [ha, hr] at h
        cases h
      | ok bs =>
        rw [ha, hr] at h
        cases h
        simp [ih hr]

theorem length_rowCurves {rows : Matrix α} {values : Array α} {inner : Coordinate}
    {curves : List (Curve α)} (h : rowCurves rows values inner = .ok curves) :
    curves.length = rows.rows := by
  simpa using length_of_mapM_eq_ok h

/-- The family with one curve for each sample of `outerVariable`, these tabulated in either
direction. The samples of the curves are the rows of a grid, written either way round; each row
runs in a direction of its own. -/
def ofSamples (outerVariable : Coordinate) (outerSamples : Array α) (written : Matrix α)
    (orientation : Orientation) (values : Array α) : Except (Error α) (CurveFamily α) := do
  let inner := outerVariable.other
  let outer ← blame outerVariable.name (Axis.ofSamples outerSamples)
  let rows := written.orient orientation
  if h : rows.rows = outer.samples.size ∧ rows.columns = values.size then
    match hc : rowCurves rows values inner with
    | .ok curves =>
      .ok ⟨outerVariable, outer, outer.reorder curves.toArray,
        by simp [length_rowCurves hc, h.1]⟩
    | .error e => .error e
  else
    .error (.shape inner.name (.gridMismatch written.shape outerVariable.argument .z
      (outer.samples.size, values.size) orientation))

/-- The smallest range around the ranges of all curves. -/
def innerRange (family : CurveFamily α) : Interval α :=
  have := family.size_curves
  have := family.outer.two_le_size
  family.curves.foldl (fun range curve => range.hull curve.range)
    family.curves[0].range

instance [BEq α] : BEq (CurveFamily α) where
  beq family other :=
    family.outerVariable == other.outerVariable && family.outer == other.outer &&
      family.curves == other.curves

end CurveFamily

end DesignChart
