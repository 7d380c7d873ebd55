import Mathlib
import DesignChart.Proofs.Interpolant.Tables
import DesignChart.Proofs.Scalar.Mean

/-!
# Where finite tables are answered with numbers

A curve of finite values is answered with a number at each number in range whose difference from the
sample before it can be stored, which is certain where the difference of the two samples around it
can. Samples may be too far apart for that. Then the numbers beyond the reach of the first one have
no place between the two, and are answered with NaN.
-/

namespace DesignChart

namespace Axis

variable {axis : Axis Float} {cell : Cell axis} {v : Float}

theorem Increasing.isFinite_sample (h : axis.Increasing) (i : Fin axis.samples.size) :
    (axis.sample i).isFinite = true :=
  h.isFinite _ (Array.getElem_mem i.isLt)

theorem Cell.Contains.isFinite (h : axis.Increasing) (hv : cell.Contains v) :
    v.isFinite = true :=
  Double.isFinite_of_between (h.isFinite_sample cell.low) (h.isFinite_sample cell.high) hv.1 hv.2

theorem Cell.Contains.isFinite_sub_start (h : axis.Increasing) (hv : cell.Contains v)
    (hlength : (cell.stop - cell.start).isFinite = true) : (v - cell.start).isFinite = true :=
  Double.isFinite_sub_of_between (h.isFinite_sample cell.low) (h.isFinite_sample cell.high)
    (hv.isFinite h) hv.1 hv.2 hlength

theorem Cell.Contains.fraction_mem (h : axis.Increasing) (hv : cell.Contains v)
    (hreach : (v - cell.start).isFinite = true) :
    (cell.fraction v).isFinite = true ∧ 0 ≤ cell.fraction v ∧ cell.fraction v ≤ 1 :=
  Double.place_mem (h.isFinite_sample cell.low) (h.isFinite_sample cell.high) (hv.isFinite h)
    (h.start_lt_stop cell) hv.1 hv.2 hreach

theorem Cell.Contains.isNaN_fraction (h : axis.Increasing) (hv : cell.Contains v)
    (hbeyond : (v - cell.start).isFinite = false) : (cell.fraction v).isNaN = true :=
  Double.isNaN_place (h.isFinite_sample cell.low) (h.isFinite_sample cell.high) (hv.isFinite h)
    hv.1 hv.2 hbeyond

/-- A number has a place in the cell that holds it just if its difference from the start can be
stored. -/
theorem Cell.Contains.fraction_mem_iff (h : axis.Increasing) (hv : cell.Contains v) :
    (0 ≤ cell.fraction v ∧ cell.fraction v ≤ 1) ↔ (v - cell.start).isFinite = true := by
  constructor
  · intro hplace
    by_contra hbeyond
    rw [Bool.not_eq_true] at hbeyond
    have hnan := hv.isNaN_fraction h hbeyond
    have hnum : (cell.fraction v).isNaN = false := (LawfulScalar.isNaN_of_le hplace.1).2
    rw [hnum] at hnan
    cases hnan
  · intro hreach
    exact (hv.fraction_mem h hreach).2

/-- Finite data give a number wherever there is a place, and NaN elsewhere. -/
theorem Cell.Contains.isNaN_read_iff (h : axis.Increasing) (hv : cell.Contains v)
    {data : Fin axis.samples.size → Float} (hdata : ∀ i, (data i).isFinite = true) :
    (cell.read data v).isNaN = false ↔ (v - cell.start).isFinite = true := by
  constructor
  · intro hnum
    by_contra hbeyond
    rw [Bool.not_eq_true] at hbeyond
    have hnan : cell.read data v = Float.nan :=
      Double.blend_eq_nan _ _ (hv.isNaN_fraction h hbeyond)
    rw [hnan] at hnum
    revert hnum
    decide +kernel
  · intro hreach
    obtain ⟨hfinite, hnonneg, hone⟩ := hv.fraction_mem h hreach
    exact Double.isNaN_blend (hdata cell.low) (hdata cell.high) hfinite hnonneg hone

end Axis

namespace Interpolant

/-- A curve of finite values answers every number in range, under every policy. It answers with a
number, from a place between zero and one, just if the difference from the sample before can be
stored, and so wherever the difference of the samples around can. -/
theorem build_answers_numbers {x y : Readings Float} {options : Options Float}
    {f : Interpolant Float} (h : build x y none options = .ok f)
    (hy : ∀ ys, y = .vector ys → ∀ value ∈ ys, value.isFinite = true) :
    ∃ curve, f.chart = .curve curve ∧ ∀ v ∈ curve.range,
      let cell := curve.axis.locate v
      ∃ value, f.eval1 v = .ok value ∧
        (value.isNaN = false ↔ (v - cell.start).isFinite = true) ∧
        (0 ≤ cell.fraction v ∧ cell.fraction v ≤ 1 ↔ (v - cell.start).isFinite = true) ∧
        ((cell.stop - cell.start).isFinite = true → (v - cell.start).isFinite = true) := by
  obtain ⟨xs, ys, curve, -, hys, -, hf, hs⟩ := exists_curve_of_build h
  have haxis := Curve.increasing_of_ofSamples hs
  refine ⟨curve, hf, fun v hv => ?_⟩
  have hcell := Axis.contains_locate haxis hv
  refine ⟨curve.eval v, eval1_of_mem hf hv, ?_, hcell.fraction_mem_iff haxis,
    hcell.isFinite_sub_start haxis⟩
  rw [curve.eval_eq_read]
  exact hcell.isNaN_read_iff haxis fun i => hy ys hys _ (Curve.valueAt_mem hs i)

/-- From the least double to the greatest: zero is within reach of the least sample, the greatest is
beyond it. -/
theorem build_answers_numbers_over_all_doubles :
    let top := Float.ofBits 0x7fefffffffffffff
    ∃ f, build (.vector #[-top, top]) (.vector #[(0 : Float), 1]) none ⟨none, .raise⟩ = .ok f ∧
      (∃ value, f.eval1 0 = .ok value ∧ value.isNaN = false) ∧
      ∃ value, f.eval1 top = .ok value ∧ value.isNaN = true := by
  intro top
  have htable : Chart.TabulatesCurve (.vector #[-top, top]) (.vector #[(0 : Float), 1]) none :=
    ⟨Or.inl rfl, _, _, rfl, rfl, by decide +kernel, by decide⟩
  obtain ⟨c, hc⟩ := Chart.exists_curveOf_iff.mpr htable
  obtain ⟨f, hf⟩ := exists_build ⟨none, .raise⟩ (Chart.ofReadings_curve_eq_ok_iff.mpr ⟨c, hc, rfl⟩)
  obtain ⟨curve, hcurve, h⟩ := build_answers_numbers hf (by
    intro ys hys
    obtain rfl := Readings.vector.inj hys
    decide +kernel)
  have haxis : curve.axis = ⟨#[-top, top], false, by decide⟩ := by
    obtain ⟨curve', hcurve', hs⟩ := exists_curve_of_vectors hf
    obtain rfl := Chart.curve.inj (hcurve.symm.trans hcurve')
    have hsamples : Axis.ofSamples #[-top, top] = .ok ⟨#[-top, top], false, by decide⟩ :=
      Axis.ofSamples_of_rises (by decide) (by decide +kernel) (by decide +kernel)
    exact Except.ok.inj ((Curve.ofSamples_eq_ok_iff.mp hs).1.symm.trans hsamples)
  have hrange : curve.range = ⟨-top, top⟩ := by
    unfold Curve.range
    rw [haxis]
    rfl
  -- there is one cell only
  have hstart : ∀ cell : Axis.Cell curve.axis, cell.start = -top := by
    generalize curve.axis = axis at haxis
    subst haxis
    rintro ⟨index, hnext⟩
    have hlt : index + 1 < 2 := hnext
    obtain rfl : index = 0 := by omega
    rfl
  refine ⟨f, hf, ?_, ?_⟩
  · obtain ⟨value, hvalue, hnumber, -⟩ := h 0 (by rw [hrange]; decide +kernel)
    rw [hstart] at hnumber
    exact ⟨value, hvalue, hnumber.mpr (by decide +kernel)⟩
  · obtain ⟨value, hvalue, hnumber, -⟩ := h top (by rw [hrange]; decide +kernel)
    rw [hstart] at hnumber
    refine ⟨value, hvalue, ?_⟩
    by_contra hnan
    have hreach := hnumber.mp (Bool.not_eq_true _ ▸ hnan)
    revert hreach
    decide +kernel

end Interpolant

end DesignChart
