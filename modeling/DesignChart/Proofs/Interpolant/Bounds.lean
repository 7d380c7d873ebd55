import Mathlib
import DesignChart.Proofs.Interpolant.Clamped
import DesignChart.Proofs.Interpolant.Families

/-!
# Answers stay among the values tabulated

A chart goes on beyond its axes along straight lines, but no interpolant shows that. Once a point is
moved into range it is read between values around it, and each answer is a mean of these. What is
around a point is told here by the numbers supplied: the values of two neighbouring samples, those
at the corners of a cell, or all values that the curves of a family share.
-/

namespace DesignChart

/-- `v` lies between the least and the greatest of `values`. -/
def Among (values : List ℚ) (v : ℚ) : Prop := (∃ a ∈ values, a ≤ v) ∧ ∃ b ∈ values, v ≤ b

namespace Among

variable {values : List ℚ}

theorem of_mem {v : ℚ} (h : v ∈ values) : Among values v := ⟨⟨v, h, le_rfl⟩, v, h, le_rfl⟩

/-- A mean of numbers among the values is among them. -/
theorem blend {start stop t : ℚ} (ht : 0 ≤ t ∧ t ≤ 1) (hstart : Among values start)
    (hstop : Among values stop) : Among values (blend start stop t) := by
  obtain ⟨hnonneg, hle⟩ := ht
  obtain ⟨⟨a, ha, hastart⟩, b, hb, hbstart⟩ := hstart
  obtain ⟨⟨a', ha', hastop⟩, b', hb', hbstop⟩ := hstop
  constructor
  · rcases le_total a a' with h | h
    · exact ⟨a, ha, le_blend hnonneg hle hastart (h.trans hastop)⟩
    · exact ⟨a', ha', le_blend hnonneg hle (h.trans hastart) hastop⟩
  · rcases le_total b b' with h | h
    · exact ⟨b', hb', blend_le hnonneg hle (hbstart.trans h) hbstop⟩
    · exact ⟨b, hb, blend_le hnonneg hle hbstart (hbstop.trans h)⟩

/-- A mean of two of the values. -/
theorem blend_of_mem {start stop t : ℚ} (ht : 0 ≤ t ∧ t ≤ 1) (hstart : start ∈ values)
    (hstop : stop ∈ values) : Among values (DesignChart.blend start stop t) :=
  blend ht (of_mem hstart) (of_mem hstop)

end Among

/-- A number between two others is a proper part of the way from one to the other. -/
theorem share_mem_Icc {samples : Array ℚ} {i : Nat} {hi : i + 1 < samples.size} {v : ℚ}
    (hv : v ∈ gap samples i hi) : 0 ≤ share samples i hi v ∧ share samples i hi v ≤ 1 := by
  unfold share
  rcases Set.mem_uIcc.mp hv with ⟨hfirst, hsecond⟩ | ⟨hsecond, hfirst⟩
  · exact ⟨div_nonneg (by linarith) (by linarith), div_le_one_of_le₀ (by linarith) (by linarith)⟩
  · rw [← neg_div_neg_eq]
    exact ⟨div_nonneg (by linarith) (by linarith), div_le_one_of_le₀ (by linarith) (by linarith)⟩

theorem cellMean_eq_blend (z : Nat → Nat → ℚ) (i j : Nat) (s u : ℚ) :
    cellMean z i j s u = blend (blend (z i j) (z (i + 1) j) s)
      (blend (z i (j + 1)) (z (i + 1) (j + 1)) s) u := by
  rw [cellMean, blend_eq, blend_eq, blend_eq]
  ring

/-- The values at the corners of a cell of a grid. -/
def Rows.corners (axis : Option Nat) (rows : Array (Array ℚ)) (i j : Nat) : List ℚ :=
  [(i, j), (i + 1, j), (i, j + 1), (i + 1, j + 1)].filterMap fun (k, l) => entry? axis rows k l

/-- The values that are around a point once it is moved into range. -/
inductive Surrounds (axis : Option Nat) :
    Readings ℚ → Readings ℚ → Option (Readings ℚ) → List ℚ → List ℚ → Prop
  /-- Of a curve, the values of two neighbouring samples that the coordinate lies between. -/
  | curve {xs ys : Array ℚ} {v : ℚ} (k : Nat) (hx : k + 1 < xs.size) (hy : k + 1 < ys.size)
      (hv : (span xs).clamp v ∈ gap xs k hx) :
    Surrounds axis (.vector xs) (.vector ys) none [v] [ys[k], ys[k + 1]]
  /-- Of a grid of values, those at the corners of a cell that holds the point. -/
  | grid {xs ys : Array ℚ} {rows : Array (Array ℚ)} {v w : ℚ} (i j : Nat) (hi : i + 1 < xs.size)
      (hj : j + 1 < ys.size) (hv : (span xs).clamp v ∈ gap xs i hi)
      (hw : (span ys).clamp w ∈ gap ys j hj) :
    Surrounds axis (.vector xs) (.vector ys) (some (.grid rows)) [v, w]
      (Rows.corners axis rows i j)
  /-- Of a family, the values that its curves share. -/
  | family (x y : Readings ℚ) (zs : Array ℚ) (v w : ℚ) :
    Surrounds axis x y (some (.vector zs)) [v, w] zs.toList

/-- There are values around the point, and `v` is among them whichever are taken. -/
def StaysAmong (axis : Option Nat) (x y : Readings ℚ) (z : Option (Readings ℚ)) (point : List ℚ)
    (v : ℚ) : Prop :=
  (∃ values, Surrounds axis x y z point values) ∧
    ∀ values, Surrounds axis x y z point values → Among values v

section Curve

variable {xs ys : Array ℚ} {xName yName : String} {curve : Curve ℚ}
  (h : Curve.ofSamples xs ys xName yName = .ok curve)

include h

theorem Curve.range_eq : curve.range = span xs :=
  (Axis.span_eq_range (ofSamples_eq_ok_iff.mp h).1).symm

theorem Curve.clamped_among {v : ℚ} {k : Nat} (hx : k + 1 < xs.size) (hy : k + 1 < ys.size)
    (hv : (span xs).clamp v ∈ gap xs k hx) : Among [ys[k], ys[k + 1]] (curve.clamped v) := by
  have hvalue := (eval_between h hx hy hv).2
  rw [← range_eq h] at hvalue
  unfold clamped
  rw [hvalue, range_eq h]
  unfold chordAt
  rw [chord_eq_mean]
  exact .blend_of_mem (share_mem_Icc hv) (by simp) (by simp)

theorem Curve.clamped_among_values (v : ℚ) : Among ys.toList (curve.clamped v) := by
  obtain ⟨p, q, t, ht, hread⟩ := (increasing_of_ofSamples h).exists_readClamped_eq v
  rw [clamped_eq, hread]
  exact .blend_of_mem ht (Array.mem_toList_iff.mpr (valueAt_mem h p))
    (Array.mem_toList_iff.mpr (valueAt_mem h q))

end Curve

/-- A number moved into the span of the samples of an axis lies between two neighbouring ones. -/
theorem Axis.exists_gap_clamp {samples : Array ℚ} {axis : Axis ℚ} (h : ofSamples samples = .ok axis)
    (v : ℚ) : ∃ k, ∃ hk : k + 1 < samples.size, (span samples).clamp v ∈ gap samples k hk := by
  rw [span_eq_range h]
  exact exists_gap h ((increasing_of_ofSamples h).proper_range.clamp_mem rfl)

theorem ValueGrid.clamped_among {xs ys : Array ℚ} {written : Matrix ℚ} {o : Orientation}
    {grid : ValueGrid ℚ} (h : ofSamples xs ys written o = .ok grid) {z : Nat → Nat → ℚ}
    (hz : ∀ i < xs.size, ∀ j < ys.size, Matrix.entry? (written.orient o) i j = some (z i j))
    {v w : ℚ} {i j : Nat} (hi : i + 1 < xs.size) (hj : j + 1 < ys.size)
    (hv : (span xs).clamp v ∈ gap xs i hi) (hw : (span ys).clamp w ∈ gap ys j hj) :
    Among [z i j, z (i + 1) j, z i (j + 1), z (i + 1) (j + 1)] (grid.clamped v w) := by
  obtain ⟨hx, hy, -, -⟩ := ofSamples_eq_ok_iff.mp h
  have hvalue := (eval_between h hz hi hj hv hw).2.2
  unfold clamped
  rw [← Axis.span_eq_range hx, ← Axis.span_eq_range hy, hvalue, cellMean_eq_blend]
  exact .blend (share_mem_Icc hw) (.blend_of_mem (share_mem_Icc hv) (by simp) (by simp))
    (.blend_of_mem (share_mem_Icc hv) (by simp) (by simp))

theorem CurveFamily.clamped_among {family : CurveFamily ℚ} {c : Coordinate} {os zs : Array ℚ}
    {line : Nat → Array ℚ} (h : family.LaidThrough c os zs line) (w v : ℚ) :
    Among zs.toList (family.clamped w v) := by
  have houter := Axis.increasing_of_ofSamples h.outer_eq
  have hcurve : ∀ i, Among zs.toList ((family.curveAt i).clamped v) := fun i =>
    Curve.clamped_among_values (h.curveAt_eq i) v
  obtain ⟨p, q, t, ht, hread⟩ := houter.exists_readClamped_eq w
  rw [clamped_eq houter, hread]
  exact .blend ht (hcurve p) (hcurve q)

namespace Interpolant

/-- Where a point is not refused every policy gives the same answer. -/
theorem eval_of_raise {α : Type} [Scalar α] {chart : Chart α} {point : List α} {v : α}
    (hlen : point.length = chart.dimension) (hnum : ∀ u ∈ point, Scalar.isNaN u = false)
    (h : eval ⟨chart, .raise⟩ point = .ok v) (policy : RangePolicy α) :
    eval ⟨chart, policy⟩ point = .ok v := by
  have hagree : ∀ c, eval ⟨chart, .fill c⟩ point = .ok v ∧ eval ⟨chart, .clamp⟩ point = .ok v := by
    intro c
    obtain ⟨raised, filled, clamped, hagree, hr, hf, hk⟩ := eval_agrees chart c hlen hnum
    rw [hf, hk]
    exact hagree.value_of_ok (hr.symm.trans h)
  cases policy with
  | raise => exact h
  | fill c => exact (hagree c).1
  | clamp => exact (hagree 0).2

theorem curve_stays_among {xs ys : Array ℚ} {axis : Option Nat} {curve : Curve ℚ}
    (h : Curve.ofSamples xs ys "x" "y" = .ok curve) (v : ℚ) :
    StaysAmong axis (.vector xs) (.vector ys) none [v] (curve.clamped v) := by
  obtain ⟨haxis, -, -⟩ := Curve.ofSamples_eq_ok_iff.mp h
  have hsize := (Curve.exists_ofSamples_iff.mp ⟨curve, h⟩).2
  obtain ⟨k, hk, hmem⟩ := Axis.exists_gap_clamp haxis v
  refine ⟨⟨_, .curve k hk (hsize ▸ hk) hmem⟩, fun values hvalues => ?_⟩
  cases hvalues with
  | curve k hx hy hv => exact Curve.clamped_among h hx hy hv

theorem grid_stays_among {xs ys : Array ℚ} {rows : Array (Array ℚ)} {axis : Option Nat}
    {written : Matrix ℚ} {o : Orientation} {grid : ValueGrid ℚ}
    (h : ValueGrid.ofSamples xs ys written o = .ok grid) {z : Nat → Nat → ℚ}
    (hz : ∀ i < xs.size, ∀ j < ys.size, Rows.entry? axis rows i j = some (z i j) ∧
      Matrix.entry? (written.orient o) i j = some (z i j)) (v w : ℚ) :
    StaysAmong axis (.vector xs) (.vector ys) (some (.grid rows)) [v, w] (grid.clamped v w) := by
  obtain ⟨hx, hy, -, -⟩ := ValueGrid.ofSamples_eq_ok_iff.mp h
  obtain ⟨i, hi, hv⟩ := Axis.exists_gap_clamp hx v
  obtain ⟨j, hj, hw⟩ := Axis.exists_gap_clamp hy w
  refine ⟨⟨_, .grid i j hi hj hv hw⟩, fun values hvalues => ?_⟩
  cases hvalues with
  | grid i j hi hj hv hw =>
    have hentry := fun k hk l hl => (hz k hk l hl).1
    have hcorners : Rows.corners axis rows i j =
        [z i j, z (i + 1) j, z i (j + 1), z (i + 1) (j + 1)] := by
      simp only [Rows.corners, List.filterMap_cons, List.filterMap_nil,
        hentry i (by omega) j (by omega), hentry (i + 1) hi j (by omega),
        hentry i (by omega) (j + 1) hj, hentry (i + 1) hi (j + 1) hj]
    rw [hcorners]
    exact ValueGrid.clamped_among h (fun k hk l hl => (hz k hk l hl).2) hi hj hv hw

/-- What is answered at a point moved into range is among the values around it. -/
theorem exists_stays_among {x y : Readings ℚ} {z : Option (Readings ℚ)} {options : Options ℚ}
    {f : Interpolant ℚ} (h : build x y z options = .ok f) {point : List ℚ}
    (hlen : point.length = f.chart.dimension) :
    ∃ v, eval ⟨f.chart, .clamp⟩ point = .ok v ∧ StaysAmong options.axis x y z point v := by
  obtain ⟨hchart, -⟩ := build_eq_ok_iff.mp h
  have hinc := Chart.increasing_of_ofReadings hchart
  match z with
  | none =>
    obtain ⟨curve, hcurve, hf⟩ := Chart.ofReadings_curve_eq_ok_iff.mp hchart
    obtain ⟨-, xs, ys, rfl, rfl, hs⟩ := Chart.curveOf_eq_ok_iff.mp hcurve
    rw [← hf] at hlen hinc ⊢
    obtain ⟨v, rfl⟩ := List.length_eq_one_iff.mp hlen
    exact ⟨_, (eval_nearest_curve hinc rfl).1, curve_stays_among hs v⟩
  | some (.grid rows) =>
    obtain ⟨xs, ys, written, o, grid, rfl, rfl, hf, hs, z, hz⟩ := exists_grid_of_build h
    rw [hf] at hlen hinc ⊢
    obtain ⟨v, w, rfl⟩ := List.length_eq_two.mp hlen
    exact ⟨_, (eval_nearest_grid hinc.1 hinc.2 rfl rfl).1, grid_stays_among hs hz v w⟩
  | some (.vector zs) =>
    obtain ⟨c, rows, hgrid⟩ := exists_grid_of_accepted hchart
    obtain ⟨os, zs', -, hzs, -, family, source, hf, hl⟩ := exists_family_of_build hgrid h
    obtain rfl := Readings.vector.inj (Option.some.inj hzs)
    rw [hf] at hlen hinc ⊢
    obtain ⟨v, w, rfl⟩ := List.length_eq_two.mp hlen
    obtain ⟨outer, inner, -, hanswer, -⟩ :=
      eval_nearest_family source (x := v) (y := w) hinc rfl rfl
    refine ⟨_, hanswer, ⟨_, .family x y zs v w⟩, fun values hvalues => ?_⟩
    cases hvalues with
    | family => exact CurveFamily.clamped_among hl outer inner

/-- No answer leaves the values tabulated. Reading at the nearest point in range always gives one
that is among the values around this point, and so does every policy where the chart is not refused.
The lines along which a chart goes on beyond its axes are never seen. -/
theorem build_stays_among (x y : Readings ℚ) (z : Option (Readings ℚ)) (options : Options ℚ)
    (f : Interpolant ℚ) (h : build x y z options = .ok f) :
    (∀ policy, build x y z ⟨options.axis, policy⟩ = .ok ⟨f.chart, policy⟩) ∧
      ∀ point : List ℚ, point.length = f.chart.dimension →
        ∃ v, eval ⟨f.chart, .clamp⟩ point = .ok v ∧ StaysAmong options.axis x y z point v ∧
          ∀ u, eval ⟨f.chart, .raise⟩ point = .ok u →
            u = v ∧ ∀ policy, eval ⟨f.chart, policy⟩ point = .ok v := by
  obtain ⟨hchart, -⟩ := build_eq_ok_iff.mp h
  refine ⟨fun policy => build_eq_ok_iff.mpr ⟨hchart, rfl⟩, fun point hlen => ?_⟩
  obtain ⟨v, hv, hamong⟩ := exists_stays_among h hlen
  refine ⟨v, hv, hamong, fun u hu => ?_⟩
  have hpolicy := eval_of_raise hlen (fun _ _ => rfl) hu
  obtain rfl : u = v := Except.ok.inj ((hpolicy .clamp).symm.trans hv)
  exact ⟨rfl, hpolicy⟩

/-- A grid written column by column, with decreasing samples of `x`, read beyond both axes. -/
theorem build_stays_among_beyond_a_grid :
    ∃ f, build (.vector #[(1 : ℚ), 0]) (.vector #[0, 1]) (some (.grid #[#[0, 4], #[1, 2]]))
        ⟨some 1, .raise⟩ = .ok f ∧
      ∃ v, eval ⟨f.chart, .clamp⟩ [3, -2] = .ok v ∧ 0 ≤ v ∧ v ≤ 4 := by
  have htable : Chart.TabulatesGrid (.vector #[(1 : ℚ), 0]) (.vector #[0, 1])
      (.grid #[#[0, 4], #[1, 2]]) (some 1) :=
    ⟨_, _, _, rfl, rfl, rfl, by decide +kernel, by decide +kernel,
      ⟨Or.inr (Or.inr rfl), ⟨by decide, by decide⟩, rfl⟩⟩
  obtain ⟨chart, hchart⟩ := Chart.exists_surface_iff.mpr (Or.inl htable)
  obtain ⟨f, hf⟩ := exists_build ⟨some 1, .raise⟩ hchart
  obtain ⟨s, o, hs, -⟩ := Chart.laidOut_of_ofReadings (build_eq_ok_iff.mp hf).1
  obtain ⟨v, hv, ⟨-, hamong⟩, -⟩ :=
    (build_stays_among _ _ _ _ f hf).2 [3, -2] (by rw [hs]; rfl)
  have hx : (span #[(1 : ℚ), 0]).clamp 3 ∈ gap #[1, 0] 0 (by decide) := by
    norm_num [span, Interval.clamp, gap, Set.mem_uIcc]
  have hy : (span #[(0 : ℚ), 1]).clamp (-2) ∈ gap #[0, 1] 0 (by decide) := by
    norm_num [span, Interval.clamp, gap, Set.mem_uIcc]
  obtain ⟨⟨a, ha, hav⟩, b, hb, hvb⟩ := hamong _ (.grid 0 0 (by decide) (by decide) hx hy)
  have hcorners : ∀ c ∈ Rows.corners (some 1) #[#[(0 : ℚ), 4], #[1, 2]] 0 0, 0 ≤ c ∧ c ≤ 4 := by
    decide +kernel
  exact ⟨f, hf, v, hv, (hcorners a ha).1.trans hav, hvb.trans (hcorners b hb).2⟩

end Interpolant

end DesignChart
