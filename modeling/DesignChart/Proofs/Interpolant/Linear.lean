import Mathlib
import DesignChart.Proofs.Chart.Exact
import DesignChart.Proofs.Interpolant.Families

/-!
# Linear data

Data on a straight line are read as that line, in every cell and on both sides of it, since a line is
the chord of any two of its points. A reading beyond the axis goes on along it. On a value grid the
same holds along each variable for the other one held fast, and on a family, which is read where each
curve with a weight reaches only, along the outer variable as well.
-/

namespace DesignChart

namespace Axis

variable {axis : Axis ℚ}

/-- Every cell reads data on a line as the line, wherever the number lies. -/
theorem Increasing.read_linear (h : axis.Increasing) (cell : Cell axis) (a b v : ℚ) :
    cell.read (fun i => a + b * axis.sample i) v = a + b * v := by
  have hwidth : cell.stop - cell.start ≠ 0 := sub_ne_zero.mpr (h.start_lt_stop cell).ne'
  rw [Cell.read_eq, Cell.fraction_eq]
  change (1 - (v - cell.start) / (cell.stop - cell.start)) * (a + b * cell.start) +
    (v - cell.start) / (cell.stop - cell.start) * (a + b * cell.stop) = a + b * v
  field_simp
  ring

end Axis

namespace Curve

variable {curve : Curve ℚ} {xs ys : Array ℚ} {xName yName : String} {a b : ℚ}

theorem eval_linear (h : ofSamples xs ys xName yName = .ok curve)
    (hys : ∀ i (_ : i < xs.size) (_ : i < ys.size), ys[i] = a + b * xs[i]) (v : ℚ) :
    curve.eval v = a + b * v := by
  obtain ⟨haxis, hsize, -⟩ := ofSamples_eq_ok_iff.mp h
  have hn := Axis.size_of_ofSamples haxis
  have hvalue : curve.valueAt = fun i => a + b * curve.axis.sample i := by
    funext i
    have hk := (curve.axis.place i).isLt
    rw [← curve.axis.place_place i, ← value_place h (curve.axis.place i) (by omega),
      ← Axis.sample_place haxis (curve.axis.place i) (by omega)]
    exact hys _ _ _
  rw [eval_eq_read, hvalue]
  exact (Axis.increasing_of_ofSamples haxis).read_linear _ a b v

/-- The curve through the points of a line over any samples that make an axis. -/
theorem exists_linear (hxs : ValidSamples xs) (xName yName : String) (a b : ℚ) :
    ∃ curve, ofSamples xs (xs.map fun x => a + b * x) xName yName = .ok curve ∧
      ∀ v, curve.eval v = a + b * v := by
  have hcurve : ∃ curve, ofSamples xs (xs.map fun x => a + b * x) xName yName = .ok curve :=
    exists_ofSamples_iff.mpr ⟨hxs, Array.size_map⟩
  obtain ⟨curve, hcurve⟩ := hcurve
  exact ⟨curve, hcurve, eval_linear hcurve fun i _ hi => Array.getElem_map _ hi⟩

end Curve

namespace ValueGrid

variable {grid : ValueGrid ℚ} {a b c d : ℚ}

theorem eval_bilinear (hx : grid.xAxis.Increasing) (hy : grid.yAxis.Increasing)
    (hvalue : ∀ i j, grid.valueAt i j = a + b * grid.xAxis.sample i + c * grid.yAxis.sample j +
      d * grid.xAxis.sample i * grid.yAxis.sample j) (v w : ℚ) :
    grid.eval v w = a + b * v + c * w + d * v * w := by
  -- a line along `x` for each `y` sample, and what is read on these is one along `y`
  have hline : ∀ j, (grid.xAxis.locate v).read (fun i => grid.valueAt i j) v =
      (a + b * v) + (c + d * v) * grid.yAxis.sample j := by
    intro j
    have hentry : (fun i => grid.valueAt i j) = fun i => (a + c * grid.yAxis.sample j) +
        (b + d * grid.yAxis.sample j) * grid.xAxis.sample i := by
      funext i
      rw [hvalue]
      ring
    rw [hentry, hx.read_linear]
    ring
  rw [eval_eq_read]
  simp only [hline]
  rw [hy.read_linear]
  ring

/-- The value grid that holds such values for the samples of any two axes. -/
theorem exists_bilinear {xAxis yAxis : Axis ℚ} (hx : xAxis.Increasing) (hy : yAxis.Increasing)
    {values : Matrix ℚ} (hshape : values.shape = (xAxis.samples.size, yAxis.samples.size))
    (hvalues : ∀ i j, Matrix.entry? values i.val j.val = some (a + b * xAxis.sample i +
      c * yAxis.sample j + d * xAxis.sample i * yAxis.sample j)) :
    ∃ grid, ofAxes xAxis yAxis values = .ok grid ∧
      ∀ v w, grid.eval v w = a + b * v + c * w + d * v * w := by
  obtain ⟨hrows, hcolumns⟩ := Prod.mk.inj hshape
  refine ⟨⟨xAxis, yAxis, values, hrows, hcolumns⟩, dif_pos ⟨hrows, hcolumns⟩, fun v w => ?_⟩
  refine eval_bilinear hx hy (fun i j => Option.some.inj ?_) v w
  rw [← hvalues]
  exact (Matrix.entry?_eq_some _ _ _).symm

end ValueGrid

namespace CurveFamily

variable {family : CurveFamily ℚ} {w v : ℚ}

/-- The share of a curve that does not refuse. -/
theorem endWithin_of_raise {inner : Coordinate} {curve : Curve ℚ} {p : Prop} [Decidable p]
    {share : Admission ℚ} (h : endWithin .raise inner v p curve = .ok share) :
    share = .inside (if p then curve.eval v else 0) := by
  by_cases hp : p
  · rw [if_pos hp]
    unfold endWithin Curve.evalWithin at h
    rw [if_pos (decide_eq_true hp)] at h
    rcases RangePolicy.raise_apply_cases inner.name curve.range v with ⟨-, hv⟩ | ⟨-, hv⟩
    · rw [hv] at h
      exact (Except.ok.inj h).symm
    · rw [hv] at h
      cases h
  · rw [if_neg hp]
    unfold endWithin at h
    rw [if_neg (by simpa using hp)] at h
    exact (Except.ok.inj h).symm

/-- A curve without a weight may be out of reach, and is not asked then. -/
theorem readWithin_of_raise {cell : Axis.Cell family.outer} {t : ℚ} (ht : 0 ≤ t ∧ t ≤ 1)
    {answer : Admission ℚ} (hanswer : family.readWithin .raise cell t v = .ok answer) :
    answer = .inside
      (blend ((family.curveAt cell.low).eval v) ((family.curveAt cell.high).eval v) t) := by
  unfold readWithin at hanswer
  dsimp only at hanswer
  cases hstart : endWithin .raise family.outerVariable.other v (t < 1)
      (family.curveAt cell.low) with
  | error e =>
    rw [hstart] at hanswer
    cases hanswer
  | ok start =>
    cases hstop : endWithin .raise family.outerVariable.other v (0 < t)
        (family.curveAt cell.high) with
    | error e =>
      rw [hstart, endWithin_of_raise hstart, hstop] at hanswer
      cases hanswer
    | ok stop =>
      rw [hstart, endWithin_of_raise hstart, hstop, endWithin_of_raise hstop] at hanswer
      rw [← blend_weighted ht]
      exact (Except.ok.inj hanswer).symm

/-- What a family does not refuse is read as its outer axis is. -/
theorem eq_read_of_raise (h : family.outer.Increasing) {answer : Admission ℚ}
    (hanswer : family.evalWithin .raise w v = .ok answer) :
    answer = .inside ((family.outer.locate w).read (fun i => (family.curveAt i).eval v) w) := by
  rw [evalWithin_eq] at hanswer
  rcases RangePolicy.raise_apply_cases family.outerVariable.name family.outer.range w with
    ⟨hw, happly⟩ | ⟨-, happly⟩
  · rw [happly] at hanswer
    exact readWithin_of_raise (h.fraction_mem_Icc (Axis.contains_locate h hw)) hanswer
  · rw [happly] at hanswer
    cases hanswer

/-- The lines of a table may be linear in different directions and over different ranges. -/
theorem LaidThrough.eval_linear {c : Coordinate} {os zs : Array ℚ} {line : Nat → Array ℚ}
    (h : family.LaidThrough c os zs line) {a b d : ℚ}
    (hzs : ∀ i (_ : i < os.size), ∀ j (_ : j < zs.size), ∀ r, (line i)[j]? = some r →
      zs[j] = a + b * os[i] + d * r) (i : Fin family.outer.samples.size) (v : ℚ) :
    (family.curveAt i).eval v = (a + d * v) + b * family.outer.sample i := by
  have hn := h.size_eq
  have hi : (family.outer.place i).val < os.size := by
    rw [← hn]
    exact (family.outer.place i).isLt
  have hsample := Axis.sample_place h.outer_eq (family.outer.place i) hi
  rw [Axis.place_place] at hsample
  have hline := Curve.eval_linear (a := a + b * family.outer.sample i) (b := d) (h.curveAt_eq i)
    (fun j hj hj' => by
      rw [hzs _ hi j hj' _ (Array.getElem?_eq_getElem hj), hsample]) v
  rw [hline]
  ring

end CurveFamily

namespace Interpolant

/-- Linear data are reproduced at every number by a curve and a value grid, and by a family of curves
wherever it does not refuse. -/
theorem reproduces_linear :
    (∀ (xs : Array ℚ) (xName yName : String) (a b : ℚ), ValidSamples xs →
      ∃ curve, Curve.ofSamples xs (xs.map fun x => a + b * x) xName yName = .ok curve ∧
        ∀ v, curve.eval v = a + b * v) ∧
    (∀ (xs ys : Array ℚ) (a b c d : ℚ), ValidSamples xs → ValidSamples ys →
      ∃ xAxis yAxis, Axis.ofSamples xs = .ok xAxis ∧ Axis.ofSamples ys = .ok yAxis ∧
        ∀ values : Matrix ℚ, values.shape = (xAxis.samples.size, yAxis.samples.size) →
          (∀ i j, Matrix.entry? values i.val j.val = some (a + b * xAxis.sample i +
            c * yAxis.sample j + d * xAxis.sample i * yAxis.sample j)) →
          ∃ grid, ValueGrid.ofAxes xAxis yAxis values = .ok grid ∧
            ∀ v w, grid.eval v w = a + b * v + c * w + d * v * w) ∧
    ∀ (o : Coordinate) (os zs : Array ℚ) (rows : Array (Array ℚ)) (axis : Option Nat) (a b c : ℚ) f,
      build (o.pick (.vector os) (.grid rows)) (o.pick (.grid rows) (.vector os))
        (some (.vector zs)) ⟨axis, .raise⟩ = .ok f →
      (∀ i (_ : i < os.size), ∀ j (_ : j < zs.size), ∀ r, (Rows.line axis rows i)[j]? = some r →
        zs[j] = a + b * os[i] + c * r) →
      ∀ w v answer, f.evalAcross o w v = .ok answer → answer = a + b * w + c * v := by
  refine ⟨fun xs xName yName a b hxs => Curve.exists_linear hxs xName yName a b,
    fun xs ys a b c d hxs hys => ?_, fun o os zs rows axis a b c f hf hzs w v answer hanswer => ?_⟩
  · obtain ⟨xAxis, hx⟩ := Axis.exists_ofSamples_iff.mpr hxs
    obtain ⟨yAxis, hy⟩ := Axis.exists_ofSamples_iff.mpr hys
    exact ⟨xAxis, yAxis, hx, hy, fun values hshape hvalues =>
      ValueGrid.exists_bilinear (Axis.increasing_of_ofSamples hx) (Axis.increasing_of_ofSamples hy)
        hshape hvalues⟩
  · obtain ⟨os', zs', hos, hzs', hbounds, family, _, hchart, hl⟩ :=
      exists_family_of_build (Coordinate.pick_other o _ _) hf
    rw [Coordinate.pick_self] at hos
    obtain rfl := Readings.vector.inj hos
    obtain rfl := Readings.vector.inj (Option.some.inj hzs')
    have houter := Axis.increasing_of_ofSamples hl.outer_eq
    rw [← hl.outerVariable_eq, evalAcross_eq hchart, hbounds] at hanswer
    obtain ⟨admission, hread, hvalue⟩ := Outcome.map_eq_ok.mp hanswer
    rw [CurveFamily.eq_read_of_raise houter hread] at hvalue
    simp only [hl.eval_linear hzs, houter.read_linear] at hvalue
    rw [← hvalue]
    show (a + c * v) + b * w = a + b * w + c * v
    ring

/-- A curve and a value grid read beyond their falling samples, and a family between two lines that
reach over different ranges. -/
theorem reproduces_linear_beyond :
    (∃ curve, Curve.ofSamples #[(1 : ℚ), 0] #[3, 1] "x" "y" = .ok curve ∧ curve.eval 5 = 11) ∧
    (∃ xAxis yAxis grid, Axis.ofSamples #[(2 : ℚ), 0] = .ok xAxis ∧
      Axis.ofSamples #[(0 : ℚ), 1] = .ok yAxis ∧
      ValueGrid.ofAxes xAxis yAxis ⟨2, 2, #v[#v[1, 4], #v[5, 16]]⟩ = .ok grid ∧
      grid.eval 3 (-1) = -8) ∧
    ∃ f, build (.vector #[(0 : ℚ), 1]) (.grid #[#[0, 1], #[-1 / 2, 1 / 2]])
        (some (.vector #[0, 2])) ⟨none, .raise⟩ = .ok f ∧ f.eval2 (1 / 2) (1 / 4) = .ok 1 := by
  refine ⟨?_, ?_, ?_⟩
  · obtain ⟨curve, hcurve, heval⟩ :=
      reproduces_linear.1 #[1, 0] "x" "y" 1 2 (by decide +kernel)
    have hvalues : (#[1, 0].map fun x : ℚ => 1 + 2 * x) = #[3, 1] := by decide +kernel
    rw [hvalues] at hcurve
    exact ⟨curve, hcurve, (heval 5).trans (by norm_num)⟩
  · obtain ⟨xAxis, yAxis, hx, hy, hgrid⟩ :=
      reproduces_linear.2.1 #[2, 0] #[0, 1] 1 2 3 4 (by decide +kernel) (by decide +kernel)
    obtain rfl := Except.ok.inj (hx.symm.trans
      (Axis.ofSamples_of_falls (by decide) (fun _ _ => rfl) (by decide +kernel)))
    obtain rfl := Except.ok.inj (hy.symm.trans
      (Axis.ofSamples_of_rises (by decide) (fun _ _ => rfl) (by decide +kernel)))
    obtain ⟨grid, hok, heval⟩ := hgrid ⟨2, 2, #v[#v[1, 4], #v[5, 16]]⟩ (by decide +kernel)
      (by decide +kernel)
    exact ⟨_, _, grid, hx, hy, hok, (heval 3 (-1)).trans (by norm_num)⟩
  · have hlines : ∀ i < 2, ValidSamples (Rows.line none #[#[(0 : ℚ), 1], #[-1 / 2, 1 / 2]] i) ∧
        1 / 4 ∈ span (Rows.line none #[#[(0 : ℚ), 1], #[-1 / 2, 1 / 2]] i) := by
      decide +kernel
    obtain ⟨f, hf⟩ := (accepts_family_iff .x #[(0 : ℚ), 1] #[0, 2] #[#[0, 1], #[-1 / 2, 1 / 2]]
      ⟨none, .raise⟩).mpr ⟨by decide +kernel, ⟨Or.inl rfl, ⟨by decide, by decide⟩, rfl⟩,
        fun i hi => (hlines i hi).1⟩
    -- the point is within reach of both curves, so that it is not refused
    obtain ⟨os, zs, hos, hzs, -, family, source, hfamily, hl⟩ :=
      exists_family_of_build (c := .x) rfl hf
    obtain rfl := Readings.vector.inj hos
    obtain rfl := Readings.vector.inj (Option.some.inj hzs)
    have hw : 1 / 2 ∈ family.outer.range := by
      rw [← Axis.span_eq_range hl.outer_eq]
      decide +kernel
    have hcurve : ∀ i, (family.curveAt i).evalWithin f.bounds .y (1 / 4) =
        .ok (.inside ((family.curveAt i).eval (1 / 4))) := by
      intro i
      refine Curve.evalWithin_of_mem _ _ ?_
      rw [Curve.range, ← Axis.span_eq_range (Curve.ofSamples_eq_ok_iff.mp (hl.curveAt_eq i)).1]
      have hi : (family.outer.place i).val < 2 := by
        rw [← show family.outer.samples.size = 2 from hl.size_eq]
        exact (family.outer.place i).isLt
      exact (hlines _ hi).2
    have hread := hl.evalWithin_eq_read hw (RangePolicy.apply_of_mem f.bounds _ hw) fun i _ => hcurve i
    have hanswer := evalAcross_eq hfamily (1 / 2) (1 / 4)
    rw [hread, hl.outerVariable_eq] at hanswer
    have hvalue := reproduces_linear.2.2 .x #[0, 1] #[0, 2] #[#[0, 1], #[-1 / 2, 1 / 2]] none 0 1 2
      f hf (by decide +kernel) (1 / 2) (1 / 4) _ hanswer
    refine ⟨f, hf, hanswer.trans (congrArg Except.ok (hvalue.trans ?_))⟩
    norm_num

end Interpolant

end DesignChart
