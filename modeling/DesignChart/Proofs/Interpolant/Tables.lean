import Mathlib
import DesignChart.Proofs.Chart.Accepted
import DesignChart.Proofs.Chart.Exact
import DesignChart.Proofs.Interpolant.Policies

/-!
# What curves and value grids answer

Within range no policy has a say, so an interpolant answers what its chart reads. For exact numbers
that is stated here in terms of the arguments as supplied: in either direction, and with the grid
written either way round.
-/

namespace DesignChart.Interpolant

section Answers

variable {α : Type} [Scalar α]

theorem build_eq_ok_iff {x y : Readings α} {z : Option (Readings α)} {options : Options α}
    {f : Interpolant α} :
    build x y z options = .ok f ↔
      Chart.ofReadings x y z options.axis = .ok f.chart ∧ f.bounds = options.bounds := by
  obtain ⟨chart, bounds⟩ := f
  unfold build
  rw [Outcome.bind_eq_ok]
  constructor
  · rintro ⟨chart', hchart, h⟩
    obtain ⟨rfl, rfl⟩ := Interpolant.mk.inj (Except.ok.inj h)
    exact ⟨hchart, rfl⟩
  · rintro ⟨hchart, rfl⟩
    exact ⟨chart, hchart, rfl⟩

theorem exists_build {x y : Readings α} {z : Option (Readings α)} {chart : Chart α}
    (options : Options α) (h : Chart.ofReadings x y z options.axis = .ok chart) :
    ∃ f, build x y z options = .ok f :=
  ⟨⟨chart, options.bounds⟩, build_eq_ok_iff.mpr ⟨h, rfl⟩⟩

theorem exists_build_iff {x y : Readings α} {z : Option (Readings α)} {options : Options α} :
    (∃ f, build x y z options = .ok f) ↔ ∃ chart, Chart.ofReadings x y z options.axis = .ok chart :=
  ⟨fun ⟨f, h⟩ => ⟨f.chart, (build_eq_ok_iff.mp h).1⟩, fun ⟨_, h⟩ => exists_build options h⟩

theorem accepts_curve_iff [LawfulScalar α] (xs ys : Array α) (options : Options α) :
    (∃ f, build (.vector xs) (.vector ys) none options = .ok f) ↔
      (options.axis = none ∨ options.axis = some 0) ∧ ValidSamples xs ∧ xs.size = ys.size := by
  rw [exists_build_iff]
  constructor
  · rintro ⟨chart, h⟩
    obtain ⟨curve, hcurve, -⟩ := Chart.ofReadings_curve_eq_ok_iff.mp h
    obtain ⟨haxis, _, _, hx, hy, hxs, hsize⟩ := Chart.exists_curveOf_iff.mp ⟨curve, hcurve⟩
    obtain rfl := Readings.vector.inj hx
    obtain rfl := Readings.vector.inj hy
    exact ⟨haxis, hxs, hsize⟩
  · rintro ⟨haxis, hxs, hsize⟩
    obtain ⟨curve, hcurve⟩ := Chart.exists_curveOf_iff.mpr ⟨haxis, xs, ys, rfl, rfl, hxs, hsize⟩
    exact ⟨.curve curve, Chart.ofReadings_curve_eq_ok_iff.mpr ⟨curve, hcurve, rfl⟩⟩

theorem accepts_grid_iff [LawfulScalar α] (xs ys : Array α) (rows : Array (Array α))
    (options : Options α) :
    (∃ f, build (.vector xs) (.vector ys) (some (.grid rows)) options = .ok f) ↔
      ValidSamples xs ∧ ValidSamples ys ∧ Rows.Spans options.axis rows xs.size ys.size :=
  exists_build_iff.trans Chart.exists_gridOf_iff

theorem eval1_of_mem {f : Interpolant α} {curve : Curve α} (hf : f.chart = .curve curve) {v : α}
    (hv : v ∈ curve.range) : f.eval1 v = .ok (curve.eval v) := by
  unfold eval1
  rw [hf]
  dsimp only
  rw [Curve.evalWithin_of_mem f.bounds _ hv]
  rfl

theorem eval2_surface {f : Interpolant α} {surface : Surface α} {source : GridSource}
    (hf : f.chart = .surface surface source) (x y : α) :
    f.eval2 x y = Admission.value <$> surface.evalWithin f.bounds x y := by
  unfold eval2
  rw [hf]

theorem eval2_of_mem {f : Interpolant α} {grid : ValueGrid α} {source : GridSource}
    (hf : f.chart = .surface (.grid grid) source) {x y : α} (hx : x ∈ grid.xAxis.range)
    (hy : y ∈ grid.yAxis.range) : f.eval2 x y = .ok (grid.eval x y) := by
  rw [eval2_surface hf]
  change Admission.value <$> grid.evalWithin f.bounds x y = _
  rw [ValueGrid.evalWithin_of_apply (RangePolicy.apply_of_mem f.bounds _ hx)
    (RangePolicy.apply_of_mem f.bounds _ hy)]
  rfl

/-- The chart of a table of `y` over `x`. -/
theorem exists_curve_of_build [LawfulScalar α] {x y : Readings α} {options : Options α}
    {f : Interpolant α} (h : build x y none options = .ok f) :
    ∃ xs ys curve, x = .vector xs ∧ y = .vector ys ∧ ys.size = xs.size ∧
      f.chart = .curve curve ∧ Curve.ofSamples xs ys "x" "y" = .ok curve := by
  obtain ⟨hchart, -⟩ := build_eq_ok_iff.mp h
  obtain ⟨curve, hcurve, hf⟩ := Chart.ofReadings_curve_eq_ok_iff.mp hchart
  obtain ⟨-, xs, ys, hx, hy, hs⟩ := Chart.curveOf_eq_ok_iff.mp hcurve
  have hsize := (Curve.exists_ofSamples_iff.mp ⟨curve, hs⟩).2
  exact ⟨xs, ys, curve, hx, hy, hsize, hf.symm, hs⟩

/-- The chart of a table of `z` over `x` and `y`, with the values by line and entry as supplied. -/
theorem exists_grid_of_build [LawfulScalar α] {x y : Readings α} {rows : Array (Array α)}
    {options : Options α} {f : Interpolant α} (h : build x y (some (.grid rows)) options = .ok f) :
    ∃ xs ys written o grid, x = .vector xs ∧ y = .vector ys ∧
      f.chart = .surface (.grid grid) ⟨.z, o⟩ ∧ ValueGrid.ofSamples xs ys written o = .ok grid ∧
      ∃ z : Nat → Nat → α, ∀ i < xs.size, ∀ j < ys.size,
        Rows.entry? options.axis rows i j = some (z i j) ∧
          Matrix.entry? (written.orient o) i j = some (z i j) := by
  obtain ⟨hchart, -⟩ := build_eq_ok_iff.mp h
  rcases Chart.ofReadings_surface_eq_ok_iff.mp hchart with
    ⟨xs, ys, _, hx, hy, hz, hg⟩ | ⟨_, _, _, _, _, hz, _⟩ | ⟨_, _, _, _, _, hz, _⟩
  · obtain rfl := Readings.grid.inj hz
    obtain ⟨o, written, grid, ho, hw, hs, hf⟩ := Chart.gridOf_eq_ok_iff.mp hg
    have hto := (Chart.orientationOf_eq_ok_iff.mp ho).2
    have hshape := (ValueGrid.exists_ofSamples_iff.mp ⟨grid, hs⟩).2.2
    obtain ⟨hrows, hcolumns⟩ := Prod.mk.inj hshape
    refine ⟨xs, ys, written, o, grid, hx, hy, hf.symm, hs,
      fun i j => (Rows.entry? options.axis rows i j).getD 0, fun i hi j hj => ?_⟩
    have hentry := Matrix.entry?_eq_some (written.orient o) (hrows.symm ▸ hi) (hcolumns.symm ▸ hj)
    rw [Matrix.entry?_orient hw hto] at hentry ⊢
    simp only [hentry, Option.getD_some, and_self]
  · cases hz
  · cases hz

theorem exists_curve_of_vectors [LawfulScalar α] {xs ys : Array α} {options : Options α}
    {f : Interpolant α} (h : build (.vector xs) (.vector ys) none options = .ok f) :
    ∃ curve, f.chart = .curve curve ∧ Curve.ofSamples xs ys "x" "y" = .ok curve := by
  obtain ⟨_, _, curve, hx, hy, -, hf, hs⟩ := exists_curve_of_build h
  obtain rfl := Readings.vector.inj hx
  obtain rfl := Readings.vector.inj hy
  exact ⟨curve, hf, hs⟩

theorem exists_grid_of_vectors [LawfulScalar α] {xs ys : Array α} {rows : Array (Array α)}
    {options : Options α} {f : Interpolant α}
    (h : build (.vector xs) (.vector ys) (some (.grid rows)) options = .ok f) :
    ∃ written o grid, f.chart = .surface (.grid grid) ⟨.z, o⟩ ∧
      ValueGrid.ofSamples xs ys written o = .ok grid ∧
      ∃ z : Nat → Nat → α, ∀ i < xs.size, ∀ j < ys.size,
        Rows.entry? options.axis rows i j = some (z i j) ∧
          Matrix.entry? (written.orient o) i j = some (z i j) := by
  obtain ⟨_, _, written, o, grid, hx, hy, hf, hs, hz⟩ := exists_grid_of_build h
  obtain rfl := Readings.vector.inj hx
  obtain rfl := Readings.vector.inj hy
  exact ⟨written, o, grid, hf, hs, hz⟩

end Answers

/-- Accepted curves and value grids answer, under every policy, what lies between the numbers
supplied: the chord of two points, and the mean of the four values around. Cells that share the
point give the same. -/
theorem build_interpolates (x y : Readings ℚ) (options : Options ℚ) (f : Interpolant ℚ) :
    (build x y none options = .ok f →
      ∃ xs ys, x = .vector xs ∧ y = .vector ys ∧ xs.size = ys.size ∧
        ∀ k (hx : k + 1 < xs.size) (hy : k + 1 < ys.size), ∀ v ∈ gap xs k hx,
          f.eval1 v = .ok (chordAt xs ys k hx hy v) ∧
          ∀ l (hx' : l + 1 < xs.size) (hy' : l + 1 < ys.size), v ∈ gap xs l hx' →
            chordAt xs ys k hx hy v = chordAt xs ys l hx' hy' v) ∧
    ∀ rows, build x y (some (.grid rows)) options = .ok f →
      ∃ xs ys, x = .vector xs ∧ y = .vector ys ∧ ∃ z : Nat → Nat → ℚ,
        (∀ i < xs.size, ∀ j < ys.size, Rows.entry? options.axis rows i j = some (z i j)) ∧
        ∀ i j (hi : i + 1 < xs.size) (hj : j + 1 < ys.size), ∀ a ∈ gap xs i hi, ∀ b ∈ gap ys j hj,
          f.eval2 a b = .ok (cellMean z i j (share xs i hi a) (share ys j hj b)) ∧
          ∀ k l (hk : k + 1 < xs.size) (hl : l + 1 < ys.size), a ∈ gap xs k hk → b ∈ gap ys l hl →
            cellMean z i j (share xs i hi a) (share ys j hj b) =
              cellMean z k l (share xs k hk a) (share ys l hl b) := by
  constructor
  · intro h
    obtain ⟨hchart, -⟩ := build_eq_ok_iff.mp h
    obtain ⟨curve, hcurve, hf⟩ := Chart.ofReadings_curve_eq_ok_iff.mp hchart
    obtain ⟨-, xs, ys, hx, hy, hs⟩ := Chart.curveOf_eq_ok_iff.mp hcurve
    have hsize := (Curve.exists_ofSamples_iff.mp ⟨curve, hs⟩).2
    have heval : ∀ k (hx : k + 1 < xs.size) (hy : k + 1 < ys.size), ∀ v ∈ gap xs k hx,
        f.eval1 v = .ok (chordAt xs ys k hx hy v) := by
      intro k hk hk' v hv
      obtain ⟨hmem, hvalue⟩ := Curve.eval_between hs hk hk' hv
      rw [eval1_of_mem hf.symm hmem, hvalue]
    refine ⟨xs, ys, hx, hy, hsize.symm, fun k hk hk' v hv => ⟨heval k hk hk' v hv, ?_⟩⟩
    intro l hl hl' hv'
    exact Except.ok.inj ((heval k hk hk' v hv).symm.trans (heval l hl hl' v hv'))
  · intro rows h
    obtain ⟨xs, ys, written, o, grid, hx, hy, hf, hs, z, hz⟩ := exists_grid_of_build h
    have heval : ∀ i j (hi : i + 1 < xs.size) (hj : j + 1 < ys.size), ∀ a ∈ gap xs i hi,
        ∀ b ∈ gap ys j hj,
          f.eval2 a b = .ok (cellMean z i j (share xs i hi a) (share ys j hj b)) := by
      intro i j hi hj a ha b hb
      obtain ⟨hxmem, hymem, hvalue⟩ :=
        ValueGrid.eval_between hs (fun i hi j hj => (hz i hi j hj).2) hi hj ha hb
      rw [eval2_of_mem hf hxmem hymem, hvalue]
    refine ⟨xs, ys, hx, hy, z, fun i hi j hj => (hz i hi j hj).1, fun i j hi hj a ha b hb =>
      ⟨heval i j hi hj a ha b hb, fun k l hk hl ha' hb' => ?_⟩⟩
    exact Except.ok.inj ((heval i j hi hj a ha b hb).symm.trans (heval k l hk hl a ha' b hb'))

/-- A curve with decreasing samples and a value grid written column by column. -/
theorem build_interpolates_decreasing :
    (∃ f, build (.vector #[(1 : ℚ), 0]) (.vector #[0, 2]) none ⟨none, .raise⟩ = .ok f ∧
      f.eval1 (1 / 2) = .ok 1) ∧
    ∃ f, build (.vector #[(1 : ℚ), 0]) (.vector #[0, 1]) (some (.grid #[#[0, 4], #[1, 2]]))
        ⟨some 1, .clamp⟩ = .ok f ∧
      f.eval2 (1 / 2) 1 = .ok (3 / 2) := by
  have hhalf : (1 / 2 : ℚ) ∈ gap #[1, 0] 0 (by decide) := by norm_num [gap, Set.mem_uIcc]
  constructor
  · have htable : Chart.TabulatesCurve (.vector #[(1 : ℚ), 0]) (.vector #[0, 2]) none :=
      ⟨Or.inl rfl, _, _, rfl, rfl, by decide +kernel, rfl⟩
    obtain ⟨c, hc⟩ := Chart.exists_curveOf_iff.mpr htable
    obtain ⟨f, hf⟩ := exists_build ⟨none, .raise⟩ (Chart.ofReadings_curve_eq_ok_iff.mpr ⟨c, hc, rfl⟩)
    obtain ⟨xs, ys, hx, hy, hsize, h⟩ := (build_interpolates _ _ _ f).1 hf
    obtain rfl := Readings.vector.inj hx
    obtain rfl := Readings.vector.inj hy
    have heval := (h 0 (by decide) (by decide) (1 / 2) hhalf).1
    refine ⟨f, hf, heval.trans (congrArg _ ?_)⟩
    norm_num [chordAt, chord]
  · have htable : Chart.TabulatesGrid (.vector #[(1 : ℚ), 0]) (.vector #[0, 1])
        (.grid #[#[0, 4], #[1, 2]]) (some 1) :=
      ⟨_, _, _, rfl, rfl, rfl, by decide +kernel, by decide +kernel,
        ⟨Or.inr (Or.inr rfl), ⟨by decide, by decide⟩, rfl⟩⟩
    obtain ⟨chart, hchart⟩ := Chart.exists_surface_iff.mpr (Or.inl htable)
    obtain ⟨f, hf⟩ := exists_build ⟨some 1, .clamp⟩ hchart
    obtain ⟨xs, ys, hx, hy, z, hz, h⟩ := (build_interpolates _ _ _ f).2 _ hf
    obtain rfl := Readings.vector.inj hx
    obtain rfl := Readings.vector.inj hy
    have hone : (1 : ℚ) ∈ gap #[0, 1] 0 (by decide) := by norm_num [gap, Set.mem_uIcc]
    have heval := (h 0 0 (by decide) (by decide) (1 / 2) hhalf 1 hone).1
    have h₀₁ : z 0 1 = 1 := (Option.some.inj (hz 0 (by decide) 1 (by decide))).symm
    have h₁₁ : z 1 1 = 2 := (Option.some.inj (hz 1 (by decide) 1 (by decide))).symm
    refine ⟨f, hf, heval.trans (congrArg _ ?_)⟩
    norm_num [cellMean, share, h₀₁, h₁₁]

end DesignChart.Interpolant
