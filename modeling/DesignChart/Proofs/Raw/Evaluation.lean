import Mathlib
import DesignChart.Proofs.Chart.Domain
import DesignChart.Proofs.Raw.Construction

/-!
# Evaluation does not break down

On a chart with increasing axes the program without guarantees reads what the program with them
does. The search leaves a cell, which has a sample and a value, or a curve, at both its ends; and
the range of an axis is not turned round, so that every number can be moved into it.
-/

namespace DesignChart

open Run (ended found)

variable {α : Type}

namespace Axis

section Lookups

variable (axis : Axis α)

theorem pred_raw : minus? axis.raw.samples.size 1 = some (axis.raw.samples.size - 1) :=
  minus?_of_le axis.size_pos

theorem first_raw : axis.raw.samples[0]? = some axis.least :=
  Array.getElem?_eq_getElem axis.size_pos

theorem last_raw : axis.raw.samples[axis.raw.samples.size - 1]? = some axis.greatest :=
  Array.getElem?_eq_getElem axis.last_lt

theorem range_raw : axis.raw.range = some axis.range := by
  simp only [RawAxis.range, first_raw, pred_raw, last_raw, Option.bind_eq_bind, Option.bind_some]
  rfl

variable {axis}

theorem Cell.start_raw (cell : Cell axis) : axis.raw.samples[cell.index]? = some cell.start :=
  Array.getElem?_eq_getElem (Nat.lt_of_succ_lt cell.next_lt)

theorem Cell.stop_raw (cell : Cell axis) : axis.raw.samples[cell.index + 1]? = some cell.stop :=
  Array.getElem?_eq_getElem cell.next_lt

end Lookups

variable [Scalar α] (axis : Axis α)

/-- Between two different places the search looks up samples only. -/
theorem bisect_raw (v : α) {low high : Nat} (low_lt : low < high)
    (high_lt : high < axis.samples.size) :
    axis.raw.bisect v low high = some (axis.bisect v low high low_lt high_lt).index := by
  have hlookup : ∀ i (hi : i < axis.samples.size), axis.raw.samples[i]? = some axis.samples[i] :=
    fun i hi => Array.getElem?_eq_getElem hi
  fun_induction bisect axis v low high low_lt high_lt with
  | case1 low high low_lt high_lt hgap hmid ih =>
    rw [RawAxis.bisect, if_pos hgap, hlookup _ (by omega)]
    exact (if_pos hmid).trans ih
  | case2 low high low_lt high_lt hgap hmid ih =>
    rw [RawAxis.bisect, if_pos hgap, hlookup _ (by omega)]
    exact (if_neg hmid).trans ih
  | case3 low high low_lt high_lt hgap =>
    rw [RawAxis.bisect, if_neg hgap, minus?_of_le low_lt.le]
    rfl

theorem locate_raw (v : α) : axis.raw.locate v = some (axis.locate v).index := by
  simp only [RawAxis.locate, first_raw, pred_raw, last_raw, Option.bind_eq_bind, Option.bind_some]
  unfold locate
  split
  next => rfl
  next =>
    split
    next => exact minus?_of_le axis.two_le_size
    next => exact axis.bisect_raw v (by have := axis.two_le_size; omega) axis.last_lt

theorem fraction_raw {axis : Axis α} (cell : Cell axis) (v : α) :
    axis.raw.fraction cell.index v = some (cell.fraction v) := by
  simp only [RawAxis.fraction, cell.start_raw, cell.stop_raw, Option.bind_eq_bind, Option.bind_some]
  rfl

end Axis

variable [Scalar α]

theorem Curve.eval_raw (curve : Curve α) (x : α) : curve.raw.eval x = some (curve.eval x) := by
  have hnext : (curve.axis.locate x).index + 1 < curve.values.size :=
    curve.size_values ▸ (curve.axis.locate x).next_lt
  have hlow : curve.raw.values[(curve.axis.locate x).index]? = some
      curve.values[(curve.axis.locate x).index] := Array.getElem?_eq_getElem (Nat.lt_of_succ_lt hnext)
  have hhigh : curve.raw.values[(curve.axis.locate x).index + 1]? = some
      curve.values[(curve.axis.locate x).index + 1] := Array.getElem?_eq_getElem hnext
  have hlocate : curve.raw.axis.locate x = _ := curve.axis.locate_raw x
  have hfraction : curve.raw.axis.fraction _ x = _ := Axis.fraction_raw (curve.axis.locate x) x
  simp only [RawCurve.eval, hlocate, hlow, hhigh, hfraction, Option.bind_eq_bind, Option.bind_some]
  rfl

theorem ValueGrid.eval_raw (grid : ValueGrid α) (x y : α) :
    grid.values.rawEval grid.xAxis.raw grid.yAxis.raw x y = some (grid.eval x y) := by
  have hi : (grid.xAxis.locate x).index + 1 < grid.values.rows :=
    grid.rows_values ▸ (grid.xAxis.locate x).next_lt
  have hj : (grid.yAxis.locate y).index + 1 < grid.values.columns :=
    grid.columns_values ▸ (grid.yAxis.locate y).next_lt
  simp only [Matrix.rawEval, Axis.locate_raw, Axis.fraction_raw, Option.bind_eq_bind,
    Option.bind_some, Matrix.entry?_eq_some _ hi hj, Matrix.entry?_eq_some _ hi (Nat.lt_of_succ_lt hj),
    Matrix.entry?_eq_some _ (Nat.lt_of_succ_lt hi) hj,
    Matrix.entry?_eq_some _ (Nat.lt_of_succ_lt hi) (Nat.lt_of_succ_lt hj)]
  rfl

/-- A number is moved into a range that is not turned round. -/
theorem RangePolicy.rawApply_eq (policy : RangePolicy α) (name : String) {range : Interval α}
    (h : range.Proper) (v : α) : policy.rawApply name range v = ended (policy.apply name range v) := by
  have hclamp : ∀ w : Admission α, found (if range.lower ≤ range.upper then some w else none) =
      (ended (.ok w) : Run (Error α) (Admission α)) := by
    intro w
    rw [if_pos (show range.lower ≤ range.upper from h)]
    rfl
  unfold rawApply apply
  split
  next => rfl
  next =>
    split
    next => rfl
    next =>
      cases policy with
      | raise => rfl
      | fill value => rfl
      | clamp => exact hclamp _

theorem Curve.evalWithin_raw [LawfulScalar α] {curve : Curve α} (h : curve.axis.Increasing)
    (policy : RangePolicy α) (c : Coordinate) (v : α) :
    curve.raw.evalWithin policy c v = ended (curve.evalWithin policy c v) := by
  have hrange : curve.raw.axis.range = some curve.range := curve.axis.range_raw
  have hproper : curve.range.Proper := h.proper_range
  unfold RawCurve.evalWithin evalWithin
  rw [hrange, Run.found_bind, policy.rawApply_eq c.name hproper]
  cases policy.apply c.name curve.range v with
  | error e => rfl
  | ok admission =>
    cases admission with
    | answered value => rfl
    | inside u =>
      change (found (curve.raw.eval u) >>= _) = _
      rw [eval_raw]
      rfl

theorem ValueGrid.evalWithin_raw [LawfulScalar α] {grid : ValueGrid α} (hx : grid.xAxis.Increasing)
    (hy : grid.yAxis.Increasing) (policy : RangePolicy α) (x y : α) :
    RawSurface.gridWithin grid.xAxis.raw grid.yAxis.raw grid.values policy x y =
      ended (grid.evalWithin policy x y) := by
  unfold RawSurface.gridWithin evalWithin
  rw [Axis.range_raw, Axis.range_raw, Run.found_bind, policy.rawApply_eq "x" hx.proper_range]
  refine Run.ended_bind fun first _ => ?_
  rw [Run.found_bind, policy.rawApply_eq "y" hy.proper_range]
  refine Run.ended_bind fun second _ => ?_
  cases first with
  | answered value => cases second <;> rfl
  | inside x =>
    cases second with
    | answered value => rfl
    | inside y =>
      dsimp only
      rw [eval_raw]
      rfl

namespace CurveFamily

omit [Scalar α] in
theorem getElem?_raw (family : CurveFamily α) (i : Fin family.outer.samples.size) :
    (family.curves.map Curve.raw)[i.val]? = some (family.curveAt i).raw := by
  have hi : i.val < family.curves.size := family.size_curves.symm ▸ i.isLt
  rw [Array.getElem?_map, Array.getElem?_eq_getElem hi]
  rfl

theorem endWithin_raw [LawfulScalar α] {curve : Curve α} (h : curve.axis.Increasing)
    (policy : RangePolicy α) (inner : Coordinate) (v : α) (weighted : Bool) :
    RawSurface.endWithin policy inner v weighted curve.raw =
      ended (endWithin policy inner v weighted curve) := by
  unfold RawSurface.endWithin endWithin
  cases weighted with
  | false => rfl
  | true => exact curve.evalWithin_raw h policy inner v

/-- Both curves around an outer coordinate are found. -/
theorem Increasing.evalWithin_raw [LawfulScalar α] {family : CurveFamily α} (h : family.Increasing)
    (policy : RangePolicy α) (w v : α) :
    RawSurface.familyWithin family.outerVariable family.outer.raw (family.curves.map Curve.raw)
      policy w v = ended (family.evalWithin policy w v) := by
  unfold RawSurface.familyWithin evalWithin
  rw [Axis.range_raw, Run.found_bind, policy.rawApply_eq _ h.outer.proper_range]
  refine Run.ended_bind fun admission _ => ?_
  cases admission with
  | answered value => rfl
  | inside w =>
    let cell := family.outer.locate w
    have hfirst : (family.curves.map Curve.raw)[cell.index]? = some (family.curveAt cell.low).raw :=
      family.getElem?_raw cell.low
    have hsecond : (family.curves.map Curve.raw)[cell.index + 1]? =
        some (family.curveAt cell.high).raw := family.getElem?_raw cell.high
    dsimp only
    rw [Axis.locate_raw, Run.found_bind, Axis.fraction_raw, Run.found_bind, hfirst, Run.found_bind,
      hsecond, Run.found_bind, endWithin_raw (h.curve _)]
    refine Run.ended_bind fun start _ => ?_
    cases start with
    | answered value => rfl
    | inside start =>
      dsimp only
      rw [endWithin_raw (h.curve _)]
      refine Run.ended_bind fun stop _ => ?_
      cases stop <;> rfl

end CurveFamily

theorem Surface.evalWithin_raw [LawfulScalar α] {surface : Surface α} {source : GridSource}
    (h : (Chart.surface surface source).Increasing) (policy : RangePolicy α) (x y : α) :
    surface.raw.evalWithin policy x y = ended (surface.evalWithin policy x y) := by
  cases surface with
  | grid g => exact g.evalWithin_raw h.1 h.2 policy x y
  | family f =>
    have hread := CurveFamily.Increasing.evalWithin_raw h policy
    obtain ⟨c, outer, curves, hsize⟩ := f
    cases c with
    | x => exact hread x y
    | y => exact hread y x

/-- Every reading of a chart with increasing axes has an outcome, the answer or the error. -/
theorem Interpolant.eval_raw [LawfulScalar α] {f : Interpolant α} (h : f.chart.Increasing)
    (point : List α) : f.raw.eval point = ended (f.eval point) := by
  obtain ⟨chart, bounds⟩ := f
  cases chart with
  | curve c =>
    match point with
    | [x] =>
      change Admission.value <$> c.raw.evalWithin bounds .x x = _
      rw [c.evalWithin_raw h, Run.ended_map]
      rfl
    | [] => rfl
    | [_, _] => rfl
    | _ :: _ :: _ :: _ => rfl
  | surface s source =>
    match point with
    | [x, y] =>
      change Admission.value <$> s.raw.evalWithin bounds x y = _
      rw [s.evalWithin_raw h, Run.ended_map]
      rfl
    | [] => rfl
    | [_] => rfl
    | _ :: _ :: _ :: _ => rfl

end DesignChart
