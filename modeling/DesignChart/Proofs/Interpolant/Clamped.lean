import Mathlib
import DesignChart.Proofs.Axis.Reading
import DesignChart.Proofs.Chart.Domain
import DesignChart.Proofs.Interpolant.Policies
import DesignChart.Proofs.Scalar.Zeros

/-!
# Reading at the nearest point in range

Moving coordinates into range is a reading of its own, and it never fails. It is the same whether a
point is moved into the domain of the chart beforehand or not. For curves and value grids there is
nothing to it, since every coordinate has one range. On a family the inner coordinate is then moved
twice, into the inner range and into that of a curve, and may end in another zero than if it is
moved once. For exact numbers such a reading is one along each axis in turn.
-/

namespace DesignChart

variable {α : Type} [Scalar α]

/-- The reading of a curve at the nearest number in its range. -/
def Curve.clamped (curve : Curve α) (v : α) : α := curve.eval (curve.range.clamp v)

/-- The reading of a value grid at the nearest point in range. -/
def ValueGrid.clamped (grid : ValueGrid α) (x y : α) : α :=
  grid.eval (grid.xAxis.range.clamp x) (grid.yAxis.range.clamp y)

/-- The reading of a family in a cell, each curve with a weight being read in its own range. -/
def CurveFamily.clampedIn (family : CurveFamily α) (cell : Axis.Cell family.outer) (t v : α) : α :=
  blend (if t < 1 then (family.curveAt cell.low).clamped v else 0)
    (if 0 < t then (family.curveAt cell.high).clamped v else 0) t

/-- The reading of a family at the nearest outer coordinate in range. -/
def CurveFamily.clamped (family : CurveFamily α) (w v : α) : α :=
  let u := family.outer.range.clamp w
  family.clampedIn (family.outer.locate u) ((family.outer.locate u).fraction u) v

/-- The point of the domain that is nearest coordinate by coordinate. -/
def Chart.nearest (chart : Chart α) (point : List α) : List α :=
  List.zipWith Interval.clamp chart.domain point

theorem Chart.nearest_family_x {family : CurveFamily α} (h : family.outerVariable = .x)
    {source : GridSource} (x y : α) :
    nearest (.surface (.family family) source) [x, y] =
      [family.outer.range.clamp x, family.innerRange.clamp y] := by
  simp only [nearest, domain, Surface.domain, h]
  rfl

theorem Chart.nearest_family_y {family : CurveFamily α} (h : family.outerVariable = .y)
    {source : GridSource} (x y : α) :
    nearest (.surface (.family family) source) [x, y] =
      [family.innerRange.clamp x, family.outer.range.clamp y] := by
  simp only [nearest, domain, Surface.domain, h]
  rfl

section Clamp

variable [LawfulScalar α]

theorem ValueGrid.evalWithin_clamp (grid : ValueGrid α) {x y : α} (hx : Scalar.isNaN x = false)
    (hy : Scalar.isNaN y = false) :
    grid.evalWithin .clamp x y = .ok (.inside (grid.clamped x y)) :=
  evalWithin_of_apply (RangePolicy.clamp_apply _ hx) (RangePolicy.clamp_apply _ hy)

theorem CurveFamily.endWithin_clamp {a b : α} (inner : Coordinate) {v : α}
    (hv : Scalar.isNaN v = false) (curve : Curve α) :
    endWithin .clamp inner v (a < b) curve = .ok (.inside (if a < b then curve.clamped v else 0)) := by
  by_cases h : a < b
  · rw [endWithin_of_lt _ _ _ _ h, if_pos h]
    exact curve.evalWithin_clamp inner hv
  · rw [endWithin_of_not_lt _ _ _ _ h, if_neg h]

theorem CurveFamily.evalWithin_clamp (family : CurveFamily α) {w v : α}
    (hw : Scalar.isNaN w = false) (hv : Scalar.isNaN v = false) :
    family.evalWithin .clamp w v = .ok (.inside (family.clamped w v)) := by
  rw [evalWithin_eq, RangePolicy.clamp_apply _ hw]
  exact readWithin_of_shares (endWithin_clamp _ hv _) (endWithin_clamp _ hv _)

end Clamp

section Rational

theorem Curve.clamped_eq (curve : Curve ℚ) :
    curve.clamped = curve.axis.readClamped curve.valueAt := rfl

/-- What is read of the values for each `x` sample is read along `y`. -/
theorem ValueGrid.clamped_eq (grid : ValueGrid ℚ) (v w : ℚ) :
    grid.clamped v w = grid.yAxis.readClamped
      (fun j => grid.xAxis.readClamped (fun i => grid.valueAt i j) v) w := rfl

/-- What is read of each curve is read along the outer axis. -/
theorem CurveFamily.clamped_eq {family : CurveFamily ℚ} (h : family.outer.Increasing) (w v : ℚ) :
    family.clamped w v = family.outer.readClamped (fun i => (family.curveAt i).clamped v) w :=
  blend_weighted (h.fraction_clamp_mem_Icc w) _ _

end Rational

open Double (Same)

theorem Axis.locate_same (axis : Axis Float) {v w : Float} (h : Same v w) :
    axis.locate v = axis.locate w :=
  locate_congr h.le_iff_left h.le_iff_right

theorem Curve.eval_same (curve : Curve Float) {v w : Float} (h : Same v w) :
    Same (curve.eval v) (curve.eval w) := by
  rw [eval_eq_read, eval_eq_read, curve.axis.locate_same h]
  exact (Same.refl _).blend (.refl _) ((h.sub (.refl _)).div _)

/-- A curve gives the same when the number is moved into a wider range first. -/
theorem Curve.clamped_same {curve : Curve Float} {outer : Interval Float}
    (h : curve.axis.Increasing) (hw : curve.range.Within outer) (v : Float) :
    Same (curve.clamped v) (curve.clamped (outer.clamp v)) := by
  apply eval_same
  rcases hw.clamp_clamp (v := v) h.proper_range with heq | ⟨hle, hge⟩
  · rw [heq]
    exact .refl _
  · exact .of_le_of_le hge hle

theorem CurveFamily.clamped_same {family : CurveFamily Float} (h : family.Increasing) {w v : Float}
    (hw : w.isNaN = false) :
    Same (family.clamped w v)
      (family.clamped (family.outer.range.clamp w) (family.innerRange.clamp v)) := by
  unfold clamped
  rw [h.outer.proper_range.clamp_clamp hw]
  refine Same.blend ?_ ?_ (.refl _)
  · split
    · exact Curve.clamped_same (h.curve _) (h.within_innerRange _) v
    · exact .refl _
  · split
    · exact Curve.clamped_same (h.curve _) (h.within_innerRange _) v
    · exact .refl _

namespace Interpolant

theorem eval_curve (curve : Curve α) (policy : RangePolicy α) (x : α) :
    (⟨.curve curve, policy⟩ : Interpolant α).eval [x] =
      Admission.value <$> curve.evalWithin policy .x x := rfl

theorem eval_surface (surface : Surface α) (source : GridSource) (policy : RangePolicy α)
    (x y : α) : (⟨.surface surface source, policy⟩ : Interpolant α).eval [x, y] =
      Admission.value <$> surface.evalWithin policy x y := rfl

/-- At a point of numbers the answers under the three policies come from readings that agree. -/
theorem eval_agrees (chart : Chart α) (c : α) {point : List α}
    (hlen : point.length = chart.dimension) (hnum : ∀ v ∈ point, Scalar.isNaN v = false) :
    ∃ raised filled clamped, Agrees c raised filled clamped ∧
      eval ⟨chart, .raise⟩ point = Admission.value <$> raised ∧
      eval ⟨chart, .fill c⟩ point = Admission.value <$> filled ∧
      eval ⟨chart, .clamp⟩ point = Admission.value <$> clamped := by
  cases chart with
  | curve curve =>
    obtain ⟨x, rfl⟩ := List.length_eq_one_iff.mp hlen
    exact ⟨_, _, _, curve.evalWithin_agrees c .x (hnum x (by simp)), rfl, rfl, rfl⟩
  | surface surface source =>
    obtain ⟨x, y, rfl⟩ := List.length_eq_two.mp hlen
    exact ⟨_, _, _, surface.evalWithin_agrees c (hnum x (by simp)) (hnum y (by simp)), rfl, rfl, rfl⟩

section Nearest

variable [LawfulScalar α]

theorem eval_nearest_curve {curve : Curve α} (h : curve.axis.Increasing) {x : α}
    (hx : Scalar.isNaN x = false) :
    eval ⟨.curve curve, .clamp⟩ [x] = .ok (curve.clamped x) ∧
      ∀ policy, eval ⟨.curve curve, policy⟩ (Chart.nearest (.curve curve) [x]) =
        .ok (curve.clamped x) := by
  have hmem : curve.range.clamp x ∈ curve.range := h.proper_range.clamp_mem hx
  refine ⟨?_, fun policy => ?_⟩
  · rw [eval_curve, curve.evalWithin_clamp .x hx]
    rfl
  · change eval _ [curve.range.clamp x] = _
    rw [eval_curve, Curve.evalWithin_of_mem policy .x hmem]
    rfl

theorem eval_nearest_grid {grid : ValueGrid α} {source : GridSource} (hxAxis : grid.xAxis.Increasing)
    (hyAxis : grid.yAxis.Increasing) {x y : α} (hx : Scalar.isNaN x = false)
    (hy : Scalar.isNaN y = false) :
    eval ⟨.surface (.grid grid) source, .clamp⟩ [x, y] = .ok (grid.clamped x y) ∧
      ∀ policy, eval ⟨.surface (.grid grid) source, policy⟩
        (Chart.nearest (.surface (.grid grid) source) [x, y]) = .ok (grid.clamped x y) := by
  have hxmem := hxAxis.proper_range.clamp_mem hx
  have hymem := hyAxis.proper_range.clamp_mem hy
  refine ⟨?_, fun policy => ?_⟩
  · rw [eval_surface]
    exact congrArg (Admission.value <$> ·) (grid.evalWithin_clamp hx hy)
  · change eval _ [grid.xAxis.range.clamp x, grid.yAxis.range.clamp y] = _
    rw [eval_surface]
    exact congrArg (Admission.value <$> ·) (ValueGrid.evalWithin_of_apply
      (RangePolicy.apply_of_mem policy _ hxmem) (RangePolicy.apply_of_mem policy _ hymem))

theorem eval_nearest_family {family : CurveFamily α} (source : GridSource) (h : family.Increasing)
    {x y : α} (hx : Scalar.isNaN x = false) (hy : Scalar.isNaN y = false) :
    ∃ w v, Scalar.isNaN w = false ∧
      eval ⟨.surface (.family family) source, .clamp⟩ [x, y] = .ok (family.clamped w v) ∧
      eval ⟨.surface (.family family) source, .clamp⟩
        (Chart.nearest (.surface (.family family) source) [x, y]) =
          .ok (family.clamped (family.outer.range.clamp w) (family.innerRange.clamp v)) := by
  have hinner : family.innerRange.Proper :=
    (h.within_innerRange ⟨0, family.outer.size_pos⟩).proper (h.curve _).proper_range
  have hclamp : ∀ w v, Scalar.isNaN w = false → Scalar.isNaN v = false →
      family.evalWithin .clamp (family.outer.range.clamp w) (family.innerRange.clamp v) =
        .ok (.inside (family.clamped (family.outer.range.clamp w) (family.innerRange.clamp v))) :=
    fun w v hw hv => family.evalWithin_clamp
      (Interval.isNaN_of_mem (h.outer.proper_range.clamp_mem hw))
      (Interval.isNaN_of_mem (hinner.clamp_mem hv))
  cases hc : family.outerVariable with
  | x =>
    refine ⟨x, y, hx, ?_, ?_⟩
    · rw [eval_surface, Surface.evalWithin_family_x hc, family.evalWithin_clamp hx hy]
      rfl
    · rw [Chart.nearest_family_x hc, eval_surface, Surface.evalWithin_family_x hc, hclamp x y hx hy]
      rfl
  | y =>
    refine ⟨y, x, hy, ?_, ?_⟩
    · rw [eval_surface, Surface.evalWithin_family_y hc, family.evalWithin_clamp hy hx]
      rfl
    · rw [Chart.nearest_family_y hc, eval_surface, Surface.evalWithin_family_y hc, hclamp y x hy hx]
      rfl

end Nearest

end Interpolant

end DesignChart
