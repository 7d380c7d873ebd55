import Mathlib
import DesignChart.Proofs.Chart.Refined
import DesignChart.Proofs.Interpolant.Direction

/-!
# Tables refined by what they answer

A table that is given an entry more between two neighbouring ones, with what it answers there as it
is, answers the same as before at every point, in range or not, and refuses the same ones. This goes
for the points of a curve, the lines of a value grid along either variable, and the points that all
curves of a family have at one value.
-/

namespace DesignChart

section Alike

variable {curve other : Curve ℚ}

theorem Curve.Alike.evalWithin_eq (h : curve.Alike other) (hproper : curve.range.Proper)
    (policy : RangePolicy ℚ) (coordinate : Coordinate) (v : ℚ) :
    other.evalWithin policy coordinate v = curve.evalWithin policy coordinate v := by
  unfold evalWithin
  rw [h.range_eq]
  cases hv : policy.apply coordinate.name curve.range v with
  | error e => rfl
  | ok admission =>
    cases admission with
    | answered value => rfl
    | inside w =>
      have heval := h.eval_eq w (RangePolicy.mem_of_apply hproper hv)
      exact congrArg (fun r => Except.ok (Admission.inside r)) heval

theorem ValueGrid.Alike.evalWithin_eq {grid other : ValueGrid ℚ} (h : grid.Alike other)
    (hx : grid.xAxis.range.Proper) (hy : grid.yAxis.range.Proper) (policy : RangePolicy ℚ)
    (x y : ℚ) : other.evalWithin policy x y = grid.evalWithin policy x y := by
  unfold evalWithin
  rw [h.xRange_eq, h.yRange_eq]
  cases hv : policy.apply "x" grid.xAxis.range x with
  | error e => rfl
  | ok admission =>
    cases hw : policy.apply "y" grid.yAxis.range y with
    | error e => rfl
    | ok admission' =>
      cases admission with
      | answered value => cases admission' <;> rfl
      | inside v =>
        cases admission' with
        | answered value => rfl
        | inside w =>
          have heval := h.eval_eq v (RangePolicy.mem_of_apply hx hv) w
            (RangePolicy.mem_of_apply hy hw)
          exact congrArg (fun r => Except.ok (Admission.inside r)) heval

namespace CurveFamily

/-- The families have one outer axis, and curves that are alike at each of its samples. -/
structure Alike (family other : CurveFamily ℚ) : Prop where
  outerVariable_eq : other.outerVariable = family.outerVariable
  outer_eq : other.outer = family.outer
  curve : ∀ i (hi : i < family.outer.samples.size) (hi' : i < other.outer.samples.size),
    (family.curveAt ⟨i, hi⟩).Alike (other.curveAt ⟨i, hi'⟩)

variable {family other : CurveFamily ℚ}

theorem Alike.innerRange_eq (h : family.Alike other) : other.innerRange = family.innerRange := by
  have hsize : other.outer.samples.size = family.outer.samples.size := by rw [h.outer_eq]
  have hranges : other.curves.toList.map Curve.range = family.curves.toList.map Curve.range := by
    apply List.ext_getElem
    · simp [size_curves, hsize]
    · intro i hi hi'
      have hcurve := h.curve i (by simpa [size_curves] using hi') (by simpa [size_curves] using hi)
      simpa [curveAt] using hcurve.range_eq
  rw [CurveFamily.innerRange_eq, CurveFamily.innerRange_eq, hranges,
    (h.curve 0 family.outer.size_pos other.outer.size_pos).range_eq]

theorem Alike.evalWithin_eq (h : family.Alike other) (hincreasing : family.Increasing)
    (policy : RangePolicy ℚ) (w v : ℚ) :
    other.evalWithin policy w v = family.evalWithin policy w v := by
  obtain ⟨hvariable, houter, hcurve⟩ := h
  have hshare : ∀ i (hi : i < family.outer.samples.size) (hi' : i < other.outer.samples.size),
      (other.curveAt ⟨i, hi'⟩).evalWithin policy family.outerVariable.other v =
        (family.curveAt ⟨i, hi⟩).evalWithin policy family.outerVariable.other v :=
    fun i hi hi' => (hcurve i hi hi').evalWithin_eq (hincreasing.curve _).proper_range policy _ v
  obtain ⟨variable', outer', curves', hsize'⟩ := other
  dsimp only at houter
  subst houter
  rw [evalWithin_eq, evalWithin_eq, hvariable]
  exact congrArg _ (funext fun u => readWithin_congr hvariable (hshare _ _ _) (hshare _ _ _) _)

/-- Curves refined all in the same place. -/
theorem LaidThrough.alike_refined {c : Coordinate} {os zs : Array ℚ} {line line' : Nat → Array ℚ}
    {t : ℚ} {k : Nat} (h : family.LaidThrough c os zs line) (hk : k + 1 < zs.size)
    (ht : 0 < t ∧ t < 1) (h' : other.LaidThrough c os (refine (blend · · t) k zs) line')
    (hline : ∀ i < os.size, line' i = refine (blend · · t) k (line i)) : family.Alike other := by
  have houter : other.outer = family.outer := Except.ok.inj (h'.outer_eq.symm.trans h.outer_eq)
  refine ⟨h'.outerVariable_eq.trans h.outerVariable_eq.symm, houter, fun i hi hi' => ?_⟩
  have hplace : (other.outer.place ⟨i, hi'⟩).val = (family.outer.place ⟨i, hi⟩).val := by
    simp only [Axis.val_place, houter]
  have hlt : (family.outer.place ⟨i, hi⟩).val < os.size := by
    rw [← h.size_eq]
    exact (family.outer.place _).isLt
  have hcurve := h.curveAt_eq ⟨i, hi⟩
  have hcurve' := h'.curveAt_eq ⟨i, hi'⟩
  rw [hplace, hline _ hlt] at hcurve'
  exact Curve.alike_refined hcurve (h.size_line _ hlt ▸ hk) ht hcurve'

end CurveFamily

end Alike

namespace Rows.Spans

variable {axis : Option Nat} {rows : Array (Array ℚ)} {n m k : Nat} (h : Rows.Spans axis rows n m)
  (mean : ℚ → ℚ → ℚ)
include h

theorem refineLines (hk : k + 1 < n) :
    Rows.Spans axis (Rows.refineLines mean axis k rows) (n + 1) m := by
  have hk' : k + 1 < (Rows.extent axis rows).1 := h.extent ▸ hk
  obtain ⟨hrect, hextent⟩ := Rows.refineLines_spec mean h.rectangular hk'
  exact ⟨h.dimension, hrect, by rw [hextent, h.extent]⟩

theorem refineAlong (hk : k + 1 < m) :
    Rows.Spans axis (Rows.refineAlong mean axis k rows) n (m + 1) := by
  have hk' : k + 1 < (Rows.extent axis rows).2 := h.extent ▸ hk
  obtain ⟨hrect, hextent⟩ := Rows.refineAlong_spec mean h.rectangular hk'
  exact ⟨h.dimension, hrect, by rw [hextent, h.extent]⟩

end Rows.Spans

namespace Interpolant

variable {options : Options ℚ} {f : Interpolant ℚ} {k : Nat}

section Same

variable {x y x' y' : Readings ℚ} {z z' : Option (Readings ℚ)} {g : Interpolant ℚ}
  {source source' : GridSource} (hf : build x y z options = .ok f) (hg : build x' y' z' options = .ok g)
include hf hg

/-- Tables whose curves are alike give the same answers. -/
theorem SameAnswers.of_curve {curve other : Curve ℚ} (hfchart : f.chart = .curve curve)
    (hgchart : g.chart = .curve other) (h : curve.Alike other) :
    SameAnswers (build x y z options) (build x' y' z' options) := by
  obtain ⟨hchart, hbounds⟩ := build_eq_ok_iff.mp hf
  obtain ⟨-, hbounds'⟩ := build_eq_ok_iff.mp hg
  have hincreasing := Chart.increasing_of_ofReadings hchart
  obtain ⟨chart, bounds⟩ := f
  obtain ⟨chart', bounds'⟩ := g
  dsimp only at *
  subst hfchart hgchart hbounds hbounds'
  refine .of_ok hf hg ?_ fun point => ?_
  · exact congrArg (fun range => [range]) h.range_eq.symm
  · exact (eval_congr_curve (h.evalWithin_eq hincreasing.proper_range _ _) point).symm

theorem SameAnswers.of_surface {surface other : Surface ℚ} (hfchart : f.chart = .surface surface source)
    (hgchart : g.chart = .surface other source') (hdomain : surface.domain = other.domain)
    (heval : ∀ v w, other.evalWithin options.bounds v w = surface.evalWithin options.bounds v w) :
    SameAnswers (build x y z options) (build x' y' z' options) := by
  obtain ⟨-, hbounds⟩ := build_eq_ok_iff.mp hf
  obtain ⟨-, hbounds'⟩ := build_eq_ok_iff.mp hg
  obtain ⟨chart, bounds⟩ := f
  obtain ⟨chart', bounds'⟩ := g
  dsimp only at *
  subst hfchart hgchart hbounds hbounds'
  exact .of_ok hf hg hdomain fun point => (eval_congr_surface heval point).symm

/-- Tables whose value grids are alike give the same answers. -/
theorem SameAnswers.of_grid {grid other : ValueGrid ℚ} (hfchart : f.chart = .surface (.grid grid) source)
    (hgchart : g.chart = .surface (.grid other) source') (h : grid.Alike other) :
    SameAnswers (build x y z options) (build x' y' z' options) := by
  have hincreasing := Chart.increasing_of_ofReadings (build_eq_ok_iff.mp hf).1
  rw [hfchart] at hincreasing
  refine .of_surface hf hg hfchart hgchart ?_ fun v w => ?_
  · show [_, _] = [_, _]
    rw [h.xRange_eq, h.yRange_eq]
  · exact h.evalWithin_eq hincreasing.1.proper_range hincreasing.2.proper_range _ v w

theorem SameAnswers.of_family {family other : CurveFamily ℚ}
    (hfchart : f.chart = .surface (.family family) source)
    (hgchart : g.chart = .surface (.family other) source') (h : family.Alike other) :
    SameAnswers (build x y z options) (build x' y' z' options) := by
  have hincreasing := Chart.increasing_of_ofReadings (build_eq_ok_iff.mp hf).1
  rw [hfchart] at hincreasing
  refine .of_surface hf hg hfchart hgchart ?_ fun v w => ?_
  · unfold Surface.domain
    dsimp only
    rw [h.outerVariable_eq, h.outer_eq, h.innerRange_eq]
  · unfold Surface.evalWithin
    dsimp only
    rw [h.outerVariable_eq, h.evalWithin_eq hincreasing, h.evalWithin_eq hincreasing]

end Same

theorem build_refined_curve {xs ys : Array ℚ}
    (h : build (.vector xs) (.vector ys) none options = .ok f) (hk : k + 1 < xs.size) {m : ℚ}
    (hm : m ∈ openGap xs k hk) :
    ∃ v, f.eval1 m = .ok v ∧
      SameAnswers (build (.vector xs) (.vector ys) none options)
        (build (.vector (xs.insertIdxIfInBounds (k + 1) m))
          (.vector (ys.insertIdxIfInBounds (k + 1) v)) none options) := by
  obtain ⟨haxis, hxs, hsize⟩ := (accepts_curve_iff xs ys options).mp ⟨f, h⟩
  obtain ⟨curve, hf, hs⟩ := exists_curve_of_vectors h
  have hk' : k + 1 < ys.size := hsize ▸ hk
  obtain ⟨hshare, hmean⟩ := blend_share hm
  obtain ⟨hmem, heval⟩ := Curve.eval_between hs hk hk' (Set.uIoo_subset_uIcc_self hm)
  refine ⟨_, eval1_of_mem hf hmem, ?_⟩
  have hvalue : blend ys[k] ys[k + 1] (share xs k hk m) = chordAt xs ys k hk hk' m :=
    (chord_eq_mean _ _ _ _ m).symm
  rw [heval, insertIdx_eq_refine (blend · · (share xs k hk m)) hk hmean,
    insertIdx_eq_refine (blend · · (share xs k hk m)) hk' hvalue]
  generalize share xs k hk m = t at hshare ⊢
  have hsize' : (refine (blend · · t) k xs).size = (refine (blend · · t) k ys).size := by
    rw [size_refine hk, size_refine hk', hsize]
  obtain ⟨g, hg⟩ := (accepts_curve_iff _ _ options).mpr
    ⟨haxis, validSamples_refine hshare hk hxs, hsize'⟩
  obtain ⟨curve', hf', hs'⟩ := exists_curve_of_vectors hg
  exact .of_curve h hg hf hf' (Curve.alike_refined hs hk hshare hs')

section Grid

variable {xs ys : Array ℚ} {rows : Array (Array ℚ)}

variable (h : build (.vector xs) (.vector ys) (some (.grid rows)) options = .ok f)
include h

theorem build_refined_lines (hk : k + 1 < xs.size) {m : ℚ} (hm : m ∈ openGap xs k hk) :
    SameAnswers (build (.vector xs) (.vector ys) (some (.grid rows)) options)
      (build (.vector (xs.insertIdxIfInBounds (k + 1) m)) (.vector ys)
        (some (.grid (Rows.refineLines (blend · · (share xs k hk m)) options.axis k rows)))
        options) := by
  obtain ⟨hxs, hys, hs⟩ := (accepts_grid_iff xs ys rows options).mp ⟨f, h⟩
  obtain ⟨hshare, hmean⟩ := blend_share hm
  rw [insertIdx_eq_refine (blend · · (share xs k hk m)) hk hmean]
  generalize share xs k hk m = t at hshare
  have hs' : Rows.Spans options.axis (Rows.refineLines (blend · · t) options.axis k rows)
      (refine (blend · · t) k xs).size ys.size := by
    rw [size_refine hk]
    exact hs.refineLines _ hk
  obtain ⟨g, hg⟩ := (accepts_grid_iff _ _ _ options).mpr
    ⟨validSamples_refine hshare hk hxs, hys, hs'⟩
  obtain ⟨_, _, grid, hf, hgrid, z, hz⟩ := exists_grid_of_vectors h
  obtain ⟨_, _, grid', hf', hgrid', z', hz'⟩ := exists_grid_of_vectors hg
  refine .of_grid h hg hf hf' (ValueGrid.alike_refinedLines hgrid
    (fun i hi j hj => (hz i hi j hj).2) hshare hk hgrid' fun i hi j hj => ?_)
  have hk' : k + 1 < (Rows.extent options.axis rows).1 := hs.extent ▸ hk
  rw [(hz' i hi j hj).2, ← (hz' i hi j hj).1, Rows.entry?_refineLines hs.rectangular hk']
  rw [size_refine hk] at hi
  rw [refinedAt_congr hk hi fun i hi => (hz i hi j hj).1]
  exact (map_refinedAt (g := some) (fun _ _ => rfl) _ i).symm

theorem build_refined_along (hk : k + 1 < ys.size) {m : ℚ} (hm : m ∈ openGap ys k hk) :
    SameAnswers (build (.vector xs) (.vector ys) (some (.grid rows)) options)
      (build (.vector xs) (.vector (ys.insertIdxIfInBounds (k + 1) m))
        (some (.grid (Rows.refineAlong (blend · · (share ys k hk m)) options.axis k rows)))
        options) := by
  obtain ⟨hxs, hys, hs⟩ := (accepts_grid_iff xs ys rows options).mp ⟨f, h⟩
  obtain ⟨hshare, hmean⟩ := blend_share hm
  rw [insertIdx_eq_refine (blend · · (share ys k hk m)) hk hmean]
  generalize share ys k hk m = t at hshare
  have hs' : Rows.Spans options.axis (Rows.refineAlong (blend · · t) options.axis k rows)
      xs.size (refine (blend · · t) k ys).size := by
    rw [size_refine hk]
    exact hs.refineAlong _ hk
  obtain ⟨g, hg⟩ := (accepts_grid_iff _ _ _ options).mpr
    ⟨hxs, validSamples_refine hshare hk hys, hs'⟩
  obtain ⟨_, _, grid, hf, hgrid, z, hz⟩ := exists_grid_of_vectors h
  obtain ⟨_, _, grid', hf', hgrid', z', hz'⟩ := exists_grid_of_vectors hg
  refine .of_grid h hg hf hf' (ValueGrid.alike_refinedAlong hgrid
    (fun i hi j hj => (hz i hi j hj).2) hshare hk hgrid' fun i hi j hj => ?_)
  have hk' : k + 1 < (Rows.extent options.axis rows).2 := hs.extent ▸ hk
  rw [(hz' i hi j hj).2, ← (hz' i hi j hj).1, Rows.entry?_refineAlong hs.rectangular hk']
  rw [size_refine hk] at hj
  rw [refinedAt_congr hk hj fun j hj => (hz i hi j hj).1]
  exact (map_refinedAt (g := some) (fun _ _ => rfl) _ j).symm

end Grid

theorem build_refined_family {c : Coordinate} {os zs : Array ℚ} {rows : Array (Array ℚ)}
    (h : build (c.pick (.vector os) (.grid rows)) (c.pick (.grid rows) (.vector os))
      (some (.vector zs)) options = .ok f) (hk : k + 1 < zs.size) {t : ℚ} (ht : 0 < t ∧ t < 1) :
    SameAnswers
      (build (c.pick (.vector os) (.grid rows)) (c.pick (.grid rows) (.vector os))
        (some (.vector zs)) options)
      (build (c.pick (.vector os) (.grid (Rows.refineAlong (blend · · t) options.axis k rows)))
        (c.pick (.grid (Rows.refineAlong (blend · · t) options.axis k rows)) (.vector os))
        (some (.vector (refine (blend · · t) k zs))) options) := by
  obtain ⟨hos, hs, hlines⟩ := (accepts_family_iff c os zs rows options).mp ⟨f, h⟩
  have hk' : k + 1 < (Rows.extent options.axis rows).2 := hs.extent ▸ hk
  have hline : ∀ i < os.size, Rows.line options.axis
      (Rows.refineAlong (blend · · t) options.axis k rows) i =
        refine (blend · · t) k (Rows.line options.axis rows i) := fun i hi =>
    Rows.line_refineAlong hs.rectangular hk' (hs.extent ▸ hi)
  have hsize : ∀ i < os.size, (Rows.line options.axis rows i).size = zs.size := fun i hi => by
    rw [Rows.size_line hs.rectangular (hs.extent ▸ hi), hs.extent]
  have hs' : Rows.Spans options.axis (Rows.refineAlong (blend · · t) options.axis k rows)
      os.size (refine (blend · · t) k zs).size := by
    rw [size_refine hk]
    exact hs.refineAlong _ hk
  obtain ⟨g, hg⟩ := (accepts_family_iff c _ _ _ options).mpr ⟨hos, hs', fun i hi => by
    rw [hline i hi]
    exact validSamples_refine ht (hsize i hi ▸ hk) (hlines i hi)⟩
  obtain ⟨_, _, hos', hzs', -, family, _, hf, hl⟩ :=
    exists_family_of_build (Coordinate.pick_other c _ _) h
  obtain ⟨_, _, hos'', hzs'', -, other, _, hf', hl'⟩ :=
    exists_family_of_build (Coordinate.pick_other c _ _) hg
  rw [Coordinate.pick_self] at hos' hos''
  obtain rfl := Readings.vector.inj hos'
  obtain rfl := Readings.vector.inj hos''
  obtain rfl := Readings.vector.inj (Option.some.inj hzs')
  obtain rfl := Readings.vector.inj (Option.some.inj hzs'')
  exact .of_family h hg hf hf' (hl.alike_refined hk ht hl' hline)

/-- A table with an entry more between two neighbouring ones, made of what it answers there, is
accepted and answers the same everywhere: a curve with a point more, a value grid with a line more
along either variable, and a family with a point more on all its curves. -/
theorem build_refined (options : Options ℚ) :
    (∀ xs ys f, build (.vector xs) (.vector ys) none options = .ok f →
      ∀ k (hk : k + 1 < xs.size), ∀ m ∈ openGap xs k hk, ∃ v, f.eval1 m = .ok v ∧
        SameAnswers (build (.vector xs) (.vector ys) none options)
          (build (.vector (xs.insertIdxIfInBounds (k + 1) m))
            (.vector (ys.insertIdxIfInBounds (k + 1) v)) none options)) ∧
    (∀ xs ys rows f, build (.vector xs) (.vector ys) (some (.grid rows)) options = .ok f →
      (∀ k (hk : k + 1 < xs.size), ∀ m ∈ openGap xs k hk,
        SameAnswers (build (.vector xs) (.vector ys) (some (.grid rows)) options)
          (build (.vector (xs.insertIdxIfInBounds (k + 1) m)) (.vector ys)
            (some (.grid (Rows.refineLines (blend · · (share xs k hk m)) options.axis k rows)))
            options)) ∧
      ∀ k (hk : k + 1 < ys.size), ∀ m ∈ openGap ys k hk,
        SameAnswers (build (.vector xs) (.vector ys) (some (.grid rows)) options)
          (build (.vector xs) (.vector (ys.insertIdxIfInBounds (k + 1) m))
            (some (.grid (Rows.refineAlong (blend · · (share ys k hk m)) options.axis k rows)))
            options)) ∧
    ∀ (c : Coordinate) os zs rows f,
      build (c.pick (.vector os) (.grid rows)) (c.pick (.grid rows) (.vector os))
        (some (.vector zs)) options = .ok f →
      ∀ k, k + 1 < zs.size → ∀ t : ℚ, 0 < t → t < 1 →
        SameAnswers
          (build (c.pick (.vector os) (.grid rows)) (c.pick (.grid rows) (.vector os))
            (some (.vector zs)) options)
          (build (c.pick (.vector os) (.grid (Rows.refineAlong (blend · · t) options.axis k rows)))
            (c.pick (.grid (Rows.refineAlong (blend · · t) options.axis k rows)) (.vector os))
            (some (.vector (refine (blend · · t) k zs))) options) :=
  ⟨fun _ _ _ h _ hk _ hm => build_refined_curve h hk hm,
    fun _ _ _ _ h => ⟨fun _ hk _ hm => build_refined_lines h hk hm,
      fun _ hk _ hm => build_refined_along h hk hm⟩,
    fun _ _ _ _ _ h _ hk _ hpos hlt => build_refined_family h hk ⟨hpos, hlt⟩⟩

/-- A curve with decreasing samples, a value grid written column by column and a family whose lines
fall, each with one entry more halfway. -/
theorem build_refined_halfway :
    SameAnswers (build (.vector #[(1 : ℚ), 0]) (.vector #[0, 2]) none ⟨none, .raise⟩)
      (build (.vector #[1, 1 / 2, 0]) (.vector #[0, 1, 2]) none ⟨none, .raise⟩) ∧
    SameAnswers
      (build (.vector #[(1 : ℚ), 0]) (.vector #[0, 1]) (some (.grid #[#[0, 4], #[1, 2]]))
        ⟨some 1, .fill 0⟩)
      (build (.vector #[1, 1 / 2, 0]) (.vector #[0, 1]) (some (.grid #[#[0, 2, 4], #[1, 3 / 2, 2]]))
        ⟨some 1, .fill 0⟩) ∧
    SameAnswers
      (build (.vector #[(1 : ℚ), 0]) (.grid #[#[1, 0], #[3, 1]]) (some (.vector #[0, 1]))
        ⟨none, .clamp⟩)
      (build (.vector #[(1 : ℚ), 0]) (.grid #[#[1, 1 / 2, 0], #[3, 2, 1]])
        (some (.vector #[0, 1 / 2, 1])) ⟨none, .clamp⟩) := by
  have hhalf : (1 / 2 : ℚ) ∈ openGap #[1, 0] 0 (by decide) := by norm_num [openGap, Set.uIoo]
  have hsamples : #[(1 : ℚ), 0].insertIdxIfInBounds (0 + 1) (1 / 2) = #[1, 1 / 2, 0] := by
    decide +kernel
  refine ⟨?_, ?_, ?_⟩
  · obtain ⟨f, hf⟩ := (accepts_curve_iff #[(1 : ℚ), 0] #[0, 2] ⟨none, .raise⟩).mpr
      ⟨Or.inl rfl, by decide +kernel, rfl⟩
    obtain ⟨v, hv, hsame⟩ := (build_refined _).1 _ _ f hf 0 (by decide) _ hhalf
    obtain ⟨curve, hcurve, hs⟩ := exists_curve_of_vectors hf
    obtain ⟨hmem, heval⟩ :=
      Curve.eval_between hs (by decide) (by decide) (Set.uIoo_subset_uIcc_self hhalf)
    rw [eval1_of_mem hcurve hmem, heval] at hv
    obtain rfl : v = 1 := by
      rw [← Except.ok.inj hv]
      norm_num [chordAt, chord]
    have hvalues : #[(0 : ℚ), 2].insertIdxIfInBounds (0 + 1) 1 = #[0, 1, 2] := by decide +kernel
    rw [hsamples, hvalues] at hsame
    exact hsame
  · obtain ⟨f, hf⟩ := (accepts_grid_iff #[(1 : ℚ), 0] #[0, 1] #[#[0, 4], #[1, 2]]
      ⟨some 1, .fill 0⟩).mpr ⟨by decide +kernel, by decide +kernel, Or.inr (Or.inr rfl),
        ⟨by decide, by decide⟩, rfl⟩
    have hrows : Rows.refineLines (blend · · (share #[(1 : ℚ), 0] 0 (by decide) (1 / 2))) (some 1) 0
        #[#[0, 4], #[1, 2]] = #[#[0, 2, 4], #[1, 3 / 2, 2]] := by decide +kernel
    have hsame := ((build_refined _).2.1 _ _ _ f hf).1 0 (by decide) _ hhalf
    dsimp only at hsame
    rw [hsamples, hrows] at hsame
    exact hsame
  · have hlines : ∀ i < 2, ValidSamples (Rows.line none #[#[(1 : ℚ), 0], #[3, 1]] i) := by
      decide +kernel
    obtain ⟨f, hf⟩ := (accepts_family_iff .x #[(1 : ℚ), 0] #[0, 1] #[#[1, 0], #[3, 1]]
      ⟨none, .clamp⟩).mpr ⟨by decide +kernel, ⟨Or.inl rfl, ⟨by decide, by decide⟩, rfl⟩, hlines⟩
    have hrows : Rows.refineAlong (blend · · (1 / 2 : ℚ)) none 0 #[#[1, 0], #[3, 1]] =
        #[#[1, 1 / 2, 0], #[3, 2, 1]] := by decide +kernel
    have hvalues : refine (blend · · (1 / 2 : ℚ)) 0 #[0, 1] = #[0, 1 / 2, 1] := by decide +kernel
    have hsame := (build_refined _).2.2 .x _ _ _ f hf 0 (by decide) (1 / 2) (by norm_num)
      (by norm_num)
    dsimp only at hsame
    rw [hrows, hvalues] at hsame
    exact hsame

end Interpolant

end DesignChart
