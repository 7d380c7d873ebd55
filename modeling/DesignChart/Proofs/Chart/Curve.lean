import Mathlib
import DesignChart.Curve
import DesignChart.Proofs.Axis.Location
import DesignChart.Proofs.Outcome

/-!
# Curves from the points supplied

A curve is accepted when its samples make an axis and every sample has a value. Each supplied point
keeps its two numbers together, and the curve is read by blending its values along the axis.
-/

namespace DesignChart.Curve

variable {α : Type} [Scalar α]

/-- The value kept beside sample `i`. -/
def valueAt (curve : Curve α) (i : Fin curve.axis.samples.size) : α :=
  have := curve.size_values
  curve.values[i.val]

theorem eval_eq_read (curve : Curve α) (v : α) :
    curve.eval v = (curve.axis.locate v).read curve.valueAt v := rfl

theorem ofSamples_eq_ok_iff {xs ys : Array α} {xName yName : String} {curve : Curve α} :
    ofSamples xs ys xName yName = .ok curve ↔
      Axis.ofSamples xs = .ok curve.axis ∧ ys.size = curve.axis.samples.size ∧
        curve.values = curve.axis.reorder ys := by
  obtain ⟨axis, values, hvalues⟩ := curve
  unfold ofSamples
  rw [Outcome.bind_eq_ok]
  constructor
  · rintro ⟨axis', haxis, h⟩
    split at h
    next hs =>
      obtain ⟨rfl, rfl⟩ := Curve.mk.inj (Except.ok.inj h)
      exact ⟨Outcome.blame_eq_ok.mp haxis, hs, rfl⟩
    next => cases h
  · rintro ⟨haxis, hs, hkept⟩
    dsimp only at haxis hs hkept
    subst hkept
    exact ⟨axis, Outcome.blame_eq_ok.mpr haxis, dif_pos hs⟩

/-- The value supplied in place `k`. -/
theorem value_place {xs ys : Array α} {xName yName : String} {curve : Curve α}
    (h : ofSamples xs ys xName yName = .ok curve) (k : Fin curve.axis.samples.size) (hk : k.val < ys.size) :
    ys[k.val] = curve.valueAt (curve.axis.place k) := by
  obtain ⟨-, hs, hkept⟩ := ofSamples_eq_ok_iff.mp h
  have hvalue := Axis.getElem?_reorder_place hs k
  rw [← hkept] at hvalue
  simpa [hk, curve.size_values, valueAt] using hvalue.symm

theorem valueAt_place {xs ys : Array α} {xName yName : String} {curve : Curve α}
    (h : ofSamples xs ys xName yName = .ok curve) (k : Fin curve.axis.samples.size) (d : α) :
    curve.valueAt (curve.axis.place k) = ys.getD k d := by
  have hk : k.val < ys.size := by
    rw [(ofSamples_eq_ok_iff.mp h).2.1]
    exact k.isLt
  rw [← value_place h k hk]
  simp [hk]

/-- Each value kept is one of those supplied. -/
theorem valueAt_mem {xs ys : Array α} {xName yName : String} {curve : Curve α}
    (h : ofSamples xs ys xName yName = .ok curve) (i : Fin curve.axis.samples.size) :
    curve.valueAt i ∈ ys := by
  have hsize := (ofSamples_eq_ok_iff.mp h).2.1
  have hi : (curve.axis.place i).val < ys.size := by omega
  have hplace := value_place h (curve.axis.place i) hi
  rw [Axis.place_place] at hplace
  rw [← hplace]
  exact Array.getElem_mem hi

variable [LawfulScalar α] {xs ys : Array α} {xName yName : String} {curve : Curve α}

theorem exists_ofSamples_iff :
    (∃ curve, ofSamples xs ys xName yName = .ok curve) ↔ ValidSamples xs ∧ ys.size = xs.size := by
  constructor
  · rintro ⟨curve, h⟩
    obtain ⟨haxis, hs, -⟩ := ofSamples_eq_ok_iff.mp h
    exact ⟨Axis.validSamples_of_ofSamples haxis, hs.trans (Axis.size_of_ofSamples haxis)⟩
  · rintro ⟨hv, hs⟩
    obtain ⟨axis, haxis⟩ := Axis.exists_ofSamples_iff.mpr hv
    have hsize := hs.trans (Axis.size_of_ofSamples haxis).symm
    exact ⟨⟨axis, axis.reorder ys, by simp [hsize]⟩, ofSamples_eq_ok_iff.mpr ⟨haxis, hsize, rfl⟩⟩

theorem increasing_of_ofSamples (h : ofSamples xs ys xName yName = .ok curve) :
    curve.axis.Increasing :=
  Axis.increasing_of_ofSamples (ofSamples_eq_ok_iff.mp h).1

end DesignChart.Curve
