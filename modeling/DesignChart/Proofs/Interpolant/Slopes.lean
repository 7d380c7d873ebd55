import Mathlib
import DesignChart.Proofs.Axis.Slopes
import DesignChart.Proofs.Interpolant.Clamped
import DesignChart.Proofs.Interpolant.Families

/-!
# How steep interpolants are

An interpolant that reads at the nearest point in range changes nowhere faster than its table does
from one entry to the next: not across samples, however many of them lie between two points, and not
where a point leaves the range. A curve is so bounded by its steps, a grid of values along each
variable by the steps along that one, and a family along the inner variable by the steps of its
lines.
-/

namespace DesignChart

/-- A bound for neighbours as supplied is one for neighbours as kept. -/
theorem Axis.slopes_of_supplied {axis : Axis ℚ} {L : ℚ} {data : Fin axis.samples.size → ℚ}
    {samples : Array ℚ} (h : ofSamples samples = .ok axis)
    {value : Nat → ℚ} (hvalue : ∀ k : Fin axis.samples.size, data (axis.place k) = value k)
    (hs : SlopesWithin L samples value) : axis.Slopes L data := by
  intro p q hpq
  have hn := size_of_ofSamples h
  have hdata : ∀ r, data r = value (axis.place r) := fun r => by
    rw [← hvalue, place_place]
  have hsample : ∀ r (hr : (axis.place r).val < samples.size),
      axis.sample r = samples[(axis.place r).val] := fun r hr => by
    rw [sample_place h (axis.place r) hr, place_place]
  have hp := (axis.place p).isLt
  have hq := (axis.place q).isLt
  rw [hdata, hdata, hsample p (by omega), hsample q (by omega)]
  rcases adjacent_place hpq with hnext | hnext
  · have hstep := hs (axis.place p) (by omega)
    simpa only [hnext] using hstep
  · have hstep := hs (axis.place q) (by omega)
    rw [abs_sub_comm, abs_sub_comm samples[(axis.place q).val]]
    simpa only [hnext] using hstep

section Curve

variable {curve : Curve ℚ} {L : ℚ}

theorem Curve.slopes_of_supplied {xs ys : Array ℚ} {xName yName : String}
    (h : ofSamples xs ys xName yName = .ok curve) (hs : SlopesWithin L xs (ys.getD · 0)) :
    curve.axis.Slopes L curve.valueAt := by
  exact Axis.slopes_of_supplied (ofSamples_eq_ok_iff.mp h).1 (fun k => valueAt_place h k 0) hs

/-- A curve is as steep as its points are. -/
theorem Curve.lipschitz_clamped (h : curve.axis.Increasing)
    (hs : curve.axis.Slopes L curve.valueAt) : Lipschitz L curve.clamped := by
  rw [clamped_eq]
  exact h.lipschitz_readClamped hs

end Curve

namespace ValueGrid

variable {grid : ValueGrid ℚ} {L : ℚ}

theorem lipschitz_clamped_x (hx : grid.xAxis.Increasing) (hy : grid.yAxis.Increasing)
    (hs : ∀ j, grid.xAxis.Slopes L fun i => grid.valueAt i j) (w : ℚ) :
    Lipschitz L fun v => grid.clamped v w := by
  obtain ⟨p, q, t, ht, hread⟩ := hy.exists_readClamped_eq w
  simp only [clamped_eq, hread]
  exact .blend ht (hx.lipschitz_readClamped (hs p)) (hx.lipschitz_readClamped (hs q))

/-- A mean of the values for two `x` samples is as steep along `y` as these are. -/
theorem lipschitz_clamped_y (hx : grid.xAxis.Increasing) (hy : grid.yAxis.Increasing)
    (hs : ∀ i, grid.yAxis.Slopes L fun j => grid.valueAt i j) (v : ℚ) :
    Lipschitz L fun w => grid.clamped v w := by
  obtain ⟨p, q, t, ht, hread⟩ := hx.exists_readClamped_eq v
  simp only [clamped_eq, hread]
  refine hy.lipschitz_readClamped fun k l hkl => ?_
  exact abs_blend_sub_le ht (hs p k l hkl) (hs q k l hkl)

theorem continuous_clamped (hx : grid.xAxis.Increasing) (hy : grid.yAxis.Increasing) :
    Continuous fun p : ℚ × ℚ => grid.clamped p.1 p.2 := by
  obtain ⟨L, hs⟩ := Axis.exists_slopes (fun _ => hx) fun j i => grid.valueAt i j
  have hL : 0 ≤ L := hx.nonneg_of_slopes (hs ⟨0, grid.yAxis.size_pos⟩)
  refine continuous_prod_of_continuous_lipschitzWith _ _ (fun v => ?_) fun w =>
    (lipschitz_clamped_x hx hy hs w).lipschitzWith hL
  simp only [clamped_eq]
  exact hy.continuous_readClamped _

section Supplied

variable {xs ys : Array ℚ} {written : Matrix ℚ} {o : Orientation}
  (h : ofSamples xs ys written o = .ok grid) {z : Nat → Nat → ℚ}
  (hz : ∀ i < xs.size, ∀ j < ys.size, Matrix.entry? (written.orient o) i j = some (z i j))

include h hz

theorem slopes_of_supplied_x (hs : ∀ j < ys.size, SlopesWithin L xs (z · j))
    (j : Fin grid.yAxis.samples.size) : grid.xAxis.Slopes L fun i => grid.valueAt i j := by
  obtain ⟨hx, hy, -, -⟩ := ofSamples_eq_ok_iff.mp h
  have hn := Axis.size_of_ofSamples hy
  have hj := (grid.yAxis.place j).isLt
  refine Axis.slopes_of_supplied hx (fun i => ?_) (hs (grid.yAxis.place j) (by omega))
  rw [← valueAt_place h hz, Axis.place_place]

theorem slopes_of_supplied_y (hs : ∀ i < xs.size, SlopesWithin L ys (z i))
    (i : Fin grid.xAxis.samples.size) : grid.yAxis.Slopes L fun j => grid.valueAt i j := by
  obtain ⟨hx, hy, -, -⟩ := ofSamples_eq_ok_iff.mp h
  have hm := Axis.size_of_ofSamples hx
  have hi := (grid.xAxis.place i).isLt
  refine Axis.slopes_of_supplied hy (fun j => ?_) (hs (grid.xAxis.place i) (by omega))
  rw [← valueAt_place h hz, Axis.place_place]

end Supplied

end ValueGrid

/-- A family is as steep along its inner variable as its curves are. -/
theorem CurveFamily.lipschitz_clamped {family : CurveFamily ℚ} {L : ℚ} (h : family.Increasing)
    (hs : ∀ i, (family.curveAt i).axis.Slopes L (family.curveAt i).valueAt) (w : ℚ) :
    Lipschitz L fun v => family.clamped w v := by
  have hcurve : ∀ i, Lipschitz L fun v => (family.curveAt i).clamped v := fun i =>
    Curve.lipschitz_clamped (h.curve i) (hs i)
  obtain ⟨p, q, t, ht, hread⟩ := h.outer.exists_readClamped_eq w
  simp only [clamped_eq h.outer, hread]
  exact .blend ht (hcurve p) (hcurve q)

theorem CurveFamily.continuous_clamped {family : CurveFamily ℚ} (h : family.Increasing) :
    Continuous fun p : ℚ × ℚ => family.clamped p.1 p.2 := by
  obtain ⟨L, hs⟩ := Axis.exists_slopes h.curve fun i => (family.curveAt i).valueAt
  have hL : 0 ≤ L := (h.curve ⟨0, family.outer.size_pos⟩).nonneg_of_slopes (hs _)
  refine continuous_prod_of_continuous_lipschitzWith' _ _ (fun w =>
    (lipschitz_clamped h hs w).lipschitzWith hL) fun v => ?_
  simp only [clamped_eq h.outer]
  exact h.outer.continuous_readClamped _

theorem CurveFamily.slopes_of_supplied {family : CurveFamily ℚ} {c : Coordinate} {os zs : Array ℚ}
    {line : Nat → Array ℚ} {L : ℚ} (h : family.LaidThrough c os zs line)
    (hs : ∀ i < os.size, SlopesWithin L (line i) (zs.getD · 0))
    (i : Fin family.outer.samples.size) :
    (family.curveAt i).axis.Slopes L (family.curveAt i).valueAt := by
  have hi := (family.outer.place i).isLt
  have hn := h.size_eq
  exact Curve.slopes_of_supplied (h.curveAt_eq i) (hs (family.outer.place i) (by omega))

namespace Interpolant

section Clamp

variable {f : Interpolant ℚ} (hb : f.bounds = .clamp)

include hb

theorem eval1_clamp {curve : Curve ℚ} (hf : f.chart = .curve curve) (v : ℚ) :
    f.eval1 v = .ok (curve.clamped v) := by
  unfold eval1
  rw [hf, hb]
  dsimp only
  rw [curve.evalWithin_clamp _ rfl]
  rfl

theorem eval2_clamp {grid : ValueGrid ℚ} {source : GridSource}
    (hf : f.chart = .surface (.grid grid) source) (v w : ℚ) :
    f.eval2 v w = .ok (grid.clamped v w) := by
  rw [eval2_surface hf, hb]
  change Admission.value <$> grid.evalWithin .clamp v w = _
  rw [grid.evalWithin_clamp rfl rfl]
  rfl

theorem evalAcross_clamp {family : CurveFamily ℚ} {source : GridSource}
    (hf : f.chart = .surface (.family family) source) (w v : ℚ) :
    f.evalAcross family.outerVariable w v = .ok (family.clamped w v) := by
  rw [evalAcross_eq hf, hb, family.evalWithin_clamp rfl rfl]
  rfl

end Clamp

/-- Reading at the nearest point in range, an interpolant answers everywhere and never jumps: where
two pieces meet, and where a point leaves the range. Any bound on the steps of the table bounds how
fast the answers change, however far apart the points are. -/
theorem build_lipschitz (x y : Readings ℚ) (axis : Option Nat) :
    (∀ f, build x y none ⟨axis, .clamp⟩ = .ok f →
      ∃ (xs ys : Array ℚ) (g : ℚ → ℚ), x = .vector xs ∧ y = .vector ys ∧ xs.size = ys.size ∧
        (∀ v, f.eval1 v = .ok (g v)) ∧ Continuous g ∧
        ∀ L, SlopesWithin L xs (ys.getD · 0) → Lipschitz L g) ∧
    (∀ rows f, build x y (some (.grid rows)) ⟨axis, .clamp⟩ = .ok f →
      ∃ (xs ys : Array ℚ) (z : Nat → Nat → ℚ) (g : ℚ → ℚ → ℚ),
        x = .vector xs ∧ y = .vector ys ∧
        (∀ i < xs.size, ∀ j < ys.size, Rows.entry? axis rows i j = some (z i j)) ∧
        (∀ v w, f.eval2 v w = .ok (g v w)) ∧ (Continuous fun p : ℚ × ℚ => g p.1 p.2) ∧
        (∀ L, (∀ j < ys.size, SlopesWithin L xs (z · j)) → ∀ w, Lipschitz L (g · w)) ∧
        ∀ L, (∀ i < xs.size, SlopesWithin L ys (z i)) → ∀ v, Lipschitz L (g v)) ∧
    ∀ zs f, build x y (some (.vector zs)) ⟨axis, .clamp⟩ = .ok f →
      ∃ (c : Coordinate) (os : Array ℚ) (rows : Array (Array ℚ)) (g : ℚ → ℚ → ℚ),
        c.pick x y = .vector os ∧ c.other.pick x y = .grid rows ∧
        (∀ i < os.size, zs.size = (Rows.line axis rows i).size) ∧
        (∀ w v, f.evalAcross c w v = .ok (g w v)) ∧ (Continuous fun p : ℚ × ℚ => g p.1 p.2) ∧
        ∀ L, (∀ i < os.size, SlopesWithin L (Rows.line axis rows i) (zs.getD · 0)) →
          ∀ w, Lipschitz L (g w) := by
  refine ⟨fun f h => ?_, fun rows f h => ?_, fun zs f h => ?_⟩
  · obtain ⟨hchart, hb⟩ := build_eq_ok_iff.mp h
    obtain ⟨curve, hcurve, hf⟩ := Chart.ofReadings_curve_eq_ok_iff.mp hchart
    obtain ⟨-, xs, ys, hx, hy, hs⟩ := Chart.curveOf_eq_ok_iff.mp hcurve
    have haxis := Curve.increasing_of_ofSamples hs
    have hsize := (Curve.exists_ofSamples_iff.mp ⟨curve, hs⟩).2
    refine ⟨xs, ys, curve.clamped, hx, hy, hsize.symm, eval1_clamp hb hf.symm, ?_, fun L hL => ?_⟩
    · rw [Curve.clamped_eq]
      exact haxis.continuous_readClamped _
    · exact Curve.lipschitz_clamped haxis (Curve.slopes_of_supplied hs hL)
  · obtain ⟨-, hb⟩ := build_eq_ok_iff.mp h
    obtain ⟨xs, ys, written, o, grid, hx, hy, hf, hs, z, hz⟩ := exists_grid_of_build h
    obtain ⟨hxs, hys, -, -⟩ := ValueGrid.ofSamples_eq_ok_iff.mp hs
    have hxaxis := Axis.increasing_of_ofSamples hxs
    have hyaxis := Axis.increasing_of_ofSamples hys
    have hentry := fun i hi j hj => (hz i hi j hj).2
    refine ⟨xs, ys, z, grid.clamped, hx, hy, fun i hi j hj => (hz i hi j hj).1, eval2_clamp hb hf,
      ValueGrid.continuous_clamped hxaxis hyaxis, fun L hL => ?_, fun L hL => ?_⟩
    · exact ValueGrid.lipschitz_clamped_x hxaxis hyaxis
        (ValueGrid.slopes_of_supplied_x hs hentry hL)
    · exact ValueGrid.lipschitz_clamped_y hxaxis hyaxis
        (ValueGrid.slopes_of_supplied_y hs hentry hL)
  · obtain ⟨hchart, hb⟩ := build_eq_ok_iff.mp h
    obtain ⟨c, rows, hgrid⟩ := exists_grid_of_accepted hchart
    obtain ⟨os, zs', hos, hzs, -, family, source, hf, hl⟩ := exists_family_of_build hgrid h
    obtain rfl := Readings.vector.inj (Option.some.inj hzs)
    have hinc : family.Increasing := by
      have := Chart.increasing_of_ofReadings hchart
      rwa [hf] at this
    refine ⟨c, os, rows, family.clamped, hos, hgrid, hl.size_line, fun w v => ?_,
      CurveFamily.continuous_clamped hinc, fun L hL => ?_⟩
    · rw [← hl.outerVariable_eq]
      exact evalAcross_clamp hb hf w v
    · exact CurveFamily.lipschitz_clamped hinc (CurveFamily.slopes_of_supplied hl hL)

/-- Tables with two samples along every axis, those of `x` in falling order. -/
theorem build_lipschitz_decreasing :
    (∃ f, build (.vector #[(1 : ℚ), 0]) (.vector #[0, 2]) none ⟨none, .clamp⟩ = .ok f ∧
      ∃ g, (∀ v, f.eval1 v = .ok (g v)) ∧ Lipschitz 2 g) ∧
    (∃ f, build (.vector #[(1 : ℚ), 0]) (.vector #[0, 1]) (some (.grid #[#[0, 4], #[1, 2]]))
        ⟨some 1, .clamp⟩ = .ok f ∧
      ∃ g : ℚ → ℚ → ℚ, (∀ v w, f.eval2 v w = .ok (g v w)) ∧ (∀ w, Lipschitz 4 (g · w)) ∧
        ∀ v, Lipschitz 2 (g v)) ∧
    ∃ f, build (.vector #[(1 : ℚ), 0]) (.grid #[#[0, 1], #[2, 1]]) (some (.vector #[0, 1]))
        ⟨none, .clamp⟩ = .ok f ∧
      ∃ g : ℚ → ℚ → ℚ, (∀ w v, f.eval2 w v = .ok (g w v)) ∧ ∀ w, Lipschitz 1 (g w) := by
  have hstep : ∀ {L a b : ℚ} {value : Nat → ℚ}, |value 1 - value 0| ≤ L * |b - a| →
      SlopesWithin L #[a, b] value := by
    intro L a b value h k hk
    obtain rfl : k = 0 := by simpa using hk
    exact h
  refine ⟨?_, ?_, ?_⟩
  · have htable : Chart.TabulatesCurve (.vector #[(1 : ℚ), 0]) (.vector #[0, 2]) none :=
      ⟨Or.inl rfl, _, _, rfl, rfl, by decide +kernel, rfl⟩
    obtain ⟨c, hc⟩ := Chart.exists_curveOf_iff.mpr htable
    obtain ⟨f, hf⟩ := exists_build ⟨none, .clamp⟩ (Chart.ofReadings_curve_eq_ok_iff.mpr ⟨c, hc, rfl⟩)
    obtain ⟨xs, ys, g, hx, hy, -, heval, -, hsteep⟩ := (build_lipschitz _ _ _).1 f hf
    obtain rfl := Readings.vector.inj hx
    obtain rfl := Readings.vector.inj hy
    exact ⟨f, hf, g, heval, hsteep 2 (hstep (by norm_num))⟩
  · have htable : Chart.TabulatesGrid (.vector #[(1 : ℚ), 0]) (.vector #[0, 1])
        (.grid #[#[0, 4], #[1, 2]]) (some 1) :=
      ⟨_, _, _, rfl, rfl, rfl, by decide +kernel, by decide +kernel,
        ⟨Or.inr (Or.inr rfl), ⟨by decide, by decide⟩, rfl⟩⟩
    obtain ⟨chart, hchart⟩ := Chart.exists_surface_iff.mpr (Or.inl htable)
    obtain ⟨f, hf⟩ := exists_build ⟨some 1, .clamp⟩ hchart
    obtain ⟨xs, ys, z, g, hx, hy, hz, heval, -, hxsteep, hysteep⟩ :=
      (build_lipschitz _ _ _).2.1 _ f hf
    obtain rfl := Readings.vector.inj hx
    obtain rfl := Readings.vector.inj hy
    have h₀₀ : z 0 0 = 0 := (Option.some.inj (hz 0 (by decide) 0 (by decide))).symm
    have h₀₁ : z 0 1 = 1 := (Option.some.inj (hz 0 (by decide) 1 (by decide))).symm
    have h₁₀ : z 1 0 = 4 := (Option.some.inj (hz 1 (by decide) 0 (by decide))).symm
    have h₁₁ : z 1 1 = 2 := (Option.some.inj (hz 1 (by decide) 1 (by decide))).symm
    refine ⟨f, hf, g, heval, hxsteep 4 fun j hj => hstep ?_, hysteep 2 fun i hi => hstep ?_⟩
    · match j, hj with
      | 0, _ => norm_num [h₀₀, h₁₀]
      | 1, _ => norm_num [h₀₁, h₁₁]
    · match i, hi with
      | 0, _ => norm_num [h₀₀, h₀₁]
      | 1, _ => norm_num [h₁₀, h₁₁]
  · have hlines : ∀ i < 2, ValidSamples (Rows.line none #[#[(0 : ℚ), 1], #[2, 1]] i) := by
      decide +kernel
    have htable : Chart.TabulatesFamily (.vector #[(1 : ℚ), 0]) (.grid #[#[0, 1], #[2, 1]])
        (.vector #[0, 1]) none :=
      ⟨_, _, _, rfl, rfl, rfl, by decide +kernel, ⟨Or.inl rfl, ⟨by decide, by decide⟩, rfl⟩, hlines⟩
    obtain ⟨chart, hchart⟩ := Chart.exists_surface_iff.mpr (Or.inr (Or.inl htable))
    obtain ⟨f, hf⟩ := exists_build ⟨none, .clamp⟩ hchart
    obtain ⟨c, os, rows, g, hos, hrows, -, heval, -, hsteep⟩ := (build_lipschitz _ _ _).2.2 _ f hf
    cases c with
    | x =>
      obtain rfl := Readings.vector.inj hos
      obtain rfl := Readings.grid.inj hrows
      refine ⟨f, hf, g, heval, hsteep 1 fun i hi => ?_⟩
      match i, hi with
      | 0, _ =>
        change SlopesWithin 1 #[0, 1] _
        exact hstep (by norm_num)
      | 1, _ =>
        change SlopesWithin 1 #[2, 1] _
        exact hstep (by norm_num)
    | y => cases hos

end Interpolant

end DesignChart
