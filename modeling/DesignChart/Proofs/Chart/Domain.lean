import Mathlib
import DesignChart.Proofs.Chart.Accepted
import DesignChart.Proofs.Interval

/-!
# The ranges of accepted charts

Every axis of an accepted chart increases, the axes of the single curves of a family among them. So
the ranges are proper, and the inner range of a family reaches over the range of each of its curves.
-/

namespace DesignChart

variable {α : Type} [Scalar α]

/-- A family whose axes all increase. -/
structure CurveFamily.Increasing (family : CurveFamily α) : Prop where
  outer : family.outer.Increasing
  curve : ∀ i, (family.curveAt i).axis.Increasing

/-- A chart whose axes all increase. -/
def Chart.Increasing : Chart α → Prop
  | .curve c => c.axis.Increasing
  | .surface (.grid g) _ => g.xAxis.Increasing ∧ g.yAxis.Increasing
  | .surface (.family f) _ => f.Increasing

variable [LawfulScalar α]

namespace CurveFamily

theorem increasing_of_ofSamples {c : Coordinate} {os : Array α} {written : Matrix α}
    {o : Orientation} {values : Array α} {family : CurveFamily α}
    (h : ofSamples c os written o values = .ok family) : family.Increasing := by
  obtain ⟨-, houter, hs, -⟩ := ofSamples_eq_ok_iff.mp h
  have hrows : (written.orient o).rows = family.outer.samples.size := (Prod.mk.inj hs).1
  refine ⟨Axis.increasing_of_ofSamples houter, fun i => ?_⟩
  have hi := (family.outer.place i).isLt
  have hcurve := curve_place h (family.outer.place i) (by omega)
  rw [Axis.place_place] at hcurve
  exact Curve.increasing_of_ofSamples hcurve

omit [LawfulScalar α] in
theorem innerRange_eq (family : CurveFamily α) :
    family.innerRange = (family.curves.toList.map Curve.range).foldl Interval.hull
      (family.curveAt ⟨0, family.outer.size_pos⟩).range := by
  rw [List.foldl_map, Array.foldl_toList]
  rfl

/-- The inner range reaches over the range of each curve. -/
theorem Increasing.within_innerRange {family : CurveFamily α} (h : family.Increasing)
    (i : Fin family.outer.samples.size) : (family.curveAt i).range.Within family.innerRange := by
  have hcurve : ∀ curve ∈ family.curves, curve.range.Proper :=
    forall_curves_iff.mpr fun j => (h.curve j).proper_range
  have hproper : ∀ r ∈ family.curves.toList.map Curve.range, r.Proper := by
    intro r hr
    obtain ⟨curve, hm, rfl⟩ := List.mem_map.mp hr
    exact hcurve curve (Array.mem_toList_iff.mp hm)
  rw [innerRange_eq]
  refine (Interval.within_foldl_hull hproper (h.curve _).proper_range).2 _ ?_
  refine List.mem_map_of_mem (Array.mem_toList_iff.mpr ?_)
  exact Array.getElem_mem (family.size_curves.symm ▸ i.isLt)

end CurveFamily

theorem Chart.increasing_of_ofReadings {x y : Readings α} {z : Option (Readings α)}
    {axis : Option Nat} {chart : Chart α} (h : ofReadings x y z axis = .ok chart) :
    chart.Increasing := by
  cases z with
  | none =>
    obtain ⟨c, hc, rfl⟩ := ofReadings_curve_eq_ok_iff.mp h
    obtain ⟨-, xs, ys, -, -, hs⟩ := curveOf_eq_ok_iff.mp hc
    exact Curve.increasing_of_ofSamples hs
  | some z =>
    rcases ofReadings_surface_eq_ok_iff.mp h with
      ⟨xs, ys, rows, -, -, -, hg⟩ | ⟨xs, rows, zs, -, -, -, hf⟩ | ⟨ys, rows, zs, -, -, -, hf⟩
    · obtain ⟨o, written, grid, -, -, hs, rfl⟩ := gridOf_eq_ok_iff.mp hg
      obtain ⟨hx, hy, -, -⟩ := ValueGrid.ofSamples_eq_ok_iff.mp hs
      exact ⟨Axis.increasing_of_ofSamples hx, Axis.increasing_of_ofSamples hy⟩
    · obtain ⟨o, written, family, -, -, hs, rfl⟩ := familyOf_eq_ok_iff.mp hf
      exact CurveFamily.increasing_of_ofSamples hs
    · obtain ⟨o, written, family, -, -, hs, rfl⟩ := familyOf_eq_ok_iff.mp hf
      exact CurveFamily.increasing_of_ofSamples hs

end DesignChart
