import Mathlib
import DesignChart.Proofs.Chart.Polyline
import DesignChart.Proofs.Interpolant.Tables

/-!
# What families of curves answer

A family is read on the curves that have a weight at the outer coordinate: on the two around it, or
on one alone where it is a sample. For exact numbers the answer is stated in terms of the arguments
as supplied, line by line, whichever way the outer samples and each of the lines run.
-/

namespace DesignChart

namespace Axis

variable {axis : Axis ℚ}

/-- Sample `i` has a weight at `w`. -/
def Weighted (axis : Axis ℚ) (w : ℚ) (i : Fin axis.samples.size) : Prop :=
  i = (axis.locate w).low ∧ (axis.locate w).fraction w < 1 ∨
    i = (axis.locate w).high ∧ 0 < (axis.locate w).fraction w

/-- Strictly between neighbouring samples only these have a weight. -/
theorem Increasing.eq_or_eq_of_weighted (h : axis.Increasing) {p q : Fin axis.samples.size}
    (hpq : Adjacent p q) {w : ℚ} (hw : w ∈ Set.uIoo (axis.sample p) (axis.sample q))
    {i : Fin axis.samples.size} (hi : axis.Weighted w i) : i = p ∨ i = q := by
  have hmem := Set.uIoo_subset_uIcc_self hw
  have hl := contains_locate h (h.mem_range_of_mem_uIcc hmem)
  obtain ⟨cell, hends⟩ := hpq.exists_cell
  have hc : cell.Contains w := by
    rcases hends with ⟨rfl, rfl⟩ | ⟨rfl, rfl⟩
    · exact (h.mem_uIcc_iff cell).mp hmem
    · rw [Set.uIcc_comm] at hmem
      exact (h.mem_uIcc_iff cell).mp hmem
  rcases h.eq_or_meet hl hc with hsame | ⟨k, rfl⟩
  · rw [Weighted, hsame] at hi
    rcases hends with ⟨rfl, rfl⟩ | ⟨rfl, rfl⟩
    · exact hi.imp And.left And.left
    · exact (hi.imp And.left And.left).symm
  · exfalso
    have hk : k = p ∨ k = q := by
      rcases hends with ⟨rfl, rfl⟩ | ⟨rfl, rfl⟩
      · exact h.eq_low_or_eq_high hc
      · exact (h.eq_low_or_eq_high hc).symm
    obtain ⟨hlower, hupper⟩ := hw
    rcases hk with rfl | rfl
    · exact (le_total _ _).elim (inf_lt_left.mp hlower) (left_lt_sup.mp hupper)
    · exact (le_total _ _).elim (right_lt_sup.mp hupper) (inf_lt_right.mp hlower)

/-- At a sample only that one has a weight. -/
theorem Increasing.eq_of_weighted (h : axis.Increasing) {p i : Fin axis.samples.size}
    (hi : axis.Weighted (axis.sample p) i) : i = p := by
  have hmem := h.mem_range_of_mem_uIcc (p := p) (q := p) Set.left_mem_uIcc
  have hc := contains_locate h hmem
  unfold Weighted at hi
  generalize axis.locate (axis.sample p) = cell at hc hi
  rcases h.eq_low_or_eq_high hc with rfl | rfl
  · rcases hi with ⟨hi, -⟩ | ⟨-, hpos⟩
    · exact hi
    · exact absurd cell.fraction_start hpos.ne'
  · rcases hi with ⟨-, hlt⟩ | ⟨hi, -⟩
    · exact absurd (h.fraction_stop cell) hlt.ne
    · exact hi

end Axis

namespace CurveFamily

variable {family : CurveFamily ℚ} {policy : RangePolicy ℚ} {v : ℚ}

/-- A family is read as its outer axis is, if each curve with a weight admits the inner
coordinate. -/
theorem readWithin_locate (h : family.outer.Increasing) {w : ℚ} (hw : w ∈ family.outer.range)
    {g : Fin family.outer.samples.size → ℚ}
    (hg : ∀ i, family.outer.Weighted w i →
      (family.curveAt i).evalWithin policy family.outerVariable.other v = .ok (.inside (g i))) :
    family.readWithin policy (family.outer.locate w) ((family.outer.locate w).fraction w) v =
      .ok (.inside ((family.outer.locate w).read g w)) := by
  have hlow := hg (family.outer.locate w).low
  have hhigh := hg (family.outer.locate w).high
  obtain ⟨hnonneg, hle⟩ := h.fraction_mem_Icc (Axis.contains_locate h hw)
  unfold Axis.Weighted at hlow hhigh
  unfold Axis.Cell.read
  generalize (family.outer.locate w).fraction w = t at *
  -- without a weight a share is `0`, which the blend does not see
  by_cases hstart : t < 1
  · have hfirst := (endWithin_of_lt policy _ v _ hstart).trans (hlow (Or.inl ⟨rfl, hstart⟩))
    by_cases hstop : 0 < t
    · have hsecond := (endWithin_of_lt policy _ v _ hstop).trans (hhigh (Or.inr ⟨rfl, hstop⟩))
      exact readWithin_of_shares hfirst hsecond
    · obtain rfl : t = 0 := le_antisymm (not_lt.mp hstop) hnonneg
      rw [readWithin_of_shares hfirst (endWithin_of_not_lt policy _ v _ hstop), blend_zero,
        blend_zero]
  · obtain rfl : t = 1 := le_antisymm hle (not_lt.mp hstart)
    have hsecond := (endWithin_of_lt policy _ v _ one_pos).trans (hhigh (Or.inr ⟨rfl, one_pos⟩))
    rw [readWithin_of_shares (endWithin_of_not_lt policy _ v _ hstart) hsecond, blend_one,
      blend_one]

/-- The family of a table: its outer axis and its curves come from the numbers supplied, curve by
line. -/
structure LaidThrough (family : CurveFamily ℚ) (c : Coordinate) (os zs : Array ℚ)
    (line : Nat → Array ℚ) : Prop where
  outerVariable_eq : family.outerVariable = c
  outer_eq : Axis.ofSamples os = .ok family.outer
  size_line : ∀ i < os.size, zs.size = (line i).size
  curve_eq : ∀ i : Fin family.outer.samples.size,
    Curve.ofSamples (line i) zs c.other.name "z" = .ok (family.curveAt (family.outer.place i))

namespace LaidThrough

variable {c : Coordinate} {os zs : Array ℚ} {line : Nat → Array ℚ} {w : ℚ}
  {g : Fin family.outer.samples.size → ℚ} (h : family.LaidThrough c os zs line)
include h

theorem size_eq : family.outer.samples.size = os.size := Axis.size_of_ofSamples h.outer_eq

/-- Each curve kept is one of the lines supplied. -/
theorem curveAt_eq (i : Fin family.outer.samples.size) :
    Curve.ofSamples (line (family.outer.place i)) zs c.other.name "z" = .ok (family.curveAt i) := by
  have hline := h.curve_eq (family.outer.place i)
  rwa [Axis.place_place] at hline

/-- What the curves with a weight answer, the family answers between them. -/
theorem evalWithin_eq_read {u : ℚ} (hu : u ∈ family.outer.range)
    (hw : policy.apply c.name family.outer.range w = .ok (.inside u))
    (hg : ∀ i, family.outer.Weighted u i →
      (family.curveAt i).evalWithin policy c.other v = .ok (.inside (g i))) :
    family.evalWithin policy w v = .ok (.inside ((family.outer.locate u).read g u)) := by
  rw [evalWithin_eq, h.outerVariable_eq, hw]
  refine readWithin_locate (Axis.increasing_of_ofSamples h.outer_eq) hu fun i hi => ?_
  rw [h.outerVariable_eq]
  exact hg i hi

/-- Between two outer samples the answer is the mean of what their two curves answer. -/
theorem evalWithin_between {p q : Fin family.outer.samples.size} (hpq : p.val + 1 = q.val)
    (hp : p.val + 1 < os.size) {u : ℚ} (hu : u ∈ openGap os p hp)
    (hw : policy.apply c.name family.outer.range w = .ok (.inside u)) {start stop : ℚ}
    (hstart : (family.curveAt (family.outer.place p)).evalWithin policy c.other v =
      .ok (.inside start))
    (hstop : (family.curveAt (family.outer.place q)).evalWithin policy c.other v =
      .ok (.inside stop)) :
    family.evalWithin policy w v =
      .ok (.inside ((1 - share os p hp u) * start + share os p hp u * stop)) := by
  have haxis := Axis.increasing_of_ofSamples h.outer_eq
  have hadj : Axis.Adjacent (family.outer.place p) (family.outer.place q) :=
    Axis.adjacent_place hpq
  have hne : family.outer.place q ≠ family.outer.place p := by
    intro heq
    rw [Axis.Adjacent, heq] at hadj
    omega
  have hgap : u ∈ gap os p hp := Set.uIoo_subset_uIcc_self hu
  rw [Axis.openGap_eq h.outer_eq hpq hp] at hu
  let g := fun i => if i = family.outer.place p then start else stop
  obtain ⟨hmem, hmean⟩ := Axis.read_gap h.outer_eq hpq hp hgap g
  have hread := h.evalWithin_eq_read (g := g) hmem hw fun i hi => by
    rcases haxis.eq_or_eq_of_weighted hadj hu hi with rfl | rfl
    · simpa only [g, if_pos] using hstart
    · simpa only [g, if_neg hne] using hstop
  rw [hread, hmean]
  simp only [g, if_pos, if_neg hne]

/-- At an outer sample the answer is what its curve answers. -/
theorem evalWithin_sample {p : Fin family.outer.samples.size} (hp : p.val < os.size)
    (hw : policy.apply c.name family.outer.range w = .ok (.inside os[p.val])) {answer : ℚ}
    (hanswer : (family.curveAt (family.outer.place p)).evalWithin policy c.other v =
      .ok (.inside answer)) :
    family.evalWithin policy w v = .ok (.inside answer) := by
  have haxis := Axis.increasing_of_ofSamples h.outer_eq
  have hpos : os[p.val] = family.outer.sample (family.outer.place p) :=
    Axis.sample_place h.outer_eq p hp
  rw [hpos] at hw
  have hmem := haxis.mem_range_of_mem_uIcc (p := family.outer.place p)
    (q := family.outer.place p) Set.left_mem_uIcc
  have hread := h.evalWithin_eq_read (g := fun _ => answer) hmem hw fun i hi => by
    rw [haxis.eq_of_weighted hi]
    exact hanswer
  rw [hread, haxis.read_sample (Axis.contains_locate haxis hmem)]

/-- A curve whose line admits the inner coordinate answers what the polyline is there. -/
theorem curve_answers (p : Fin family.outer.samples.size) {u : ℚ} (hu : u ∈ span (line p))
    (hv : policy.apply c.other.name (span (line p)) v = .ok (.inside u)) :
    ∃ a, polyline ((line p).toList.zip zs.toList) u = some a ∧
      (family.curveAt (family.outer.place p)).evalWithin policy c.other v = .ok (.inside a) := by
  have hcurve := h.curve_eq p
  have hsize := h.size_line p (h.size_eq ▸ p.isLt)
  have hrange := Axis.span_eq_range (Curve.ofSamples_eq_ok_iff.mp hcurve).1
  rw [hrange] at hu hv
  refine ⟨_, Curve.polyline_eq hcurve hsize hu, ?_⟩
  unfold Curve.evalWithin Curve.range
  rw [hv]
  rfl

/-- Between two outer samples the family answers the mean of their two polylines. -/
theorem answers_between {i : Nat} (hi : i + 1 < os.size) {u : ℚ}
    (hu : u ∈ openGap os i hi)
    (hw : policy.apply c.name (span os) w = .ok (.inside u)) {v₀ v₁ : ℚ}
    (hv₀ : v₀ ∈ span (line i) ∧ policy.apply c.other.name (span (line i)) v = .ok (.inside v₀))
    (hv₁ : v₁ ∈ span (line (i + 1)) ∧
      policy.apply c.other.name (span (line (i + 1))) v = .ok (.inside v₁)) :
    ∃ a b, polyline ((line i).toList.zip zs.toList) v₀ = some a ∧
      polyline ((line (i + 1)).toList.zip zs.toList) v₁ = some b ∧
      family.evalWithin policy w v =
        .ok (.inside ((1 - share os i hi u) * a + share os i hi u * b)) := by
  have hsize := h.size_eq
  let p : Fin family.outer.samples.size := ⟨i, by omega⟩
  let q : Fin family.outer.samples.size := ⟨i + 1, by omega⟩
  have hpq : p.val + 1 = q.val := rfl
  obtain ⟨a, ha, hstart⟩ := h.curve_answers p hv₀.1 hv₀.2
  obtain ⟨b, hb, hstop⟩ := h.curve_answers q hv₁.1 hv₁.2
  rw [Axis.span_eq_range h.outer_eq] at hw
  exact ⟨a, b, ha, hb, h.evalWithin_between hpq hi hu hw hstart hstop⟩

/-- At an outer sample the family answers its polyline. -/
theorem answers_sample {i : Nat} (hi : i < os.size)
    (hw : policy.apply c.name (span os) w = .ok (.inside os[i])) {v₀ : ℚ}
    (hv₀ : v₀ ∈ span (line i) ∧ policy.apply c.other.name (span (line i)) v = .ok (.inside v₀)) :
    ∃ a, polyline ((line i).toList.zip zs.toList) v₀ = some a ∧
      family.evalWithin policy w v = .ok (.inside a) := by
  have hsize := h.size_eq
  let p : Fin family.outer.samples.size := ⟨i, by omega⟩
  have hp : p.val < os.size := hi
  obtain ⟨a, ha, hanswer⟩ := h.curve_answers p hv₀.1 hv₀.2
  rw [Axis.span_eq_range h.outer_eq] at hw
  exact ⟨a, ha, h.evalWithin_sample hp hw hanswer⟩

end LaidThrough

end CurveFamily

/-- What is given for one of the two coordinates. -/
def Coordinate.pick {β : Type} (c : Coordinate) (x y : β) : β :=
  match c with
  | .x => x
  | .y => y

namespace Coordinate

variable {β : Type} (c : Coordinate) (a b : β)

theorem pick_self : c.pick (c.pick a b) (c.pick b a) = a := by
  cases c <;> rfl

theorem pick_other : c.other.pick (c.pick a b) (c.pick b a) = b := by
  cases c <;> rfl

end Coordinate

namespace Chart

variable {α : Type} [Scalar α] {c : Coordinate} {x y : Readings α} {z : Option (Readings α)}
  {os zs : Array α} {rows : Array (Array α)} {axis : Option Nat} {chart : Chart α}

/-- The arguments that tabulate a family whose outer variable is `c`. -/
theorem ofReadings_pick (c : Coordinate) (os zs : Array α) (rows : Array (Array α))
    (axis : Option Nat) :
    ofReadings (c.pick (.vector os) (.grid rows)) (c.pick (.grid rows) (.vector os))
      (some (.vector zs)) axis = familyOf c os rows zs axis := by
  cases c <;> rfl

/-- A table with a grid for one of the coordinates is a family of curves along it. -/
theorem exists_familyOf_of_ofReadings (hgrid : c.other.pick x y = .grid rows)
    (h : ofReadings x y z axis = .ok chart) :
    ∃ os zs, c.pick x y = .vector os ∧ z = some (.vector zs) ∧
      familyOf c os rows zs axis = .ok chart := by
  cases z with
  | none =>
    obtain ⟨curve, hcurve, -⟩ := ofReadings_curve_eq_ok_iff.mp h
    obtain ⟨-, xs, ys, rfl, rfl, -⟩ := curveOf_eq_ok_iff.mp hcurve
    cases c with
    | x => cases hgrid
    | y => cases hgrid
  | some z =>
    rcases ofReadings_surface_eq_ok_iff.mp h with
      ⟨xs, ys, rows', rfl, rfl, rfl, hg⟩ | ⟨os, rows', zs, rfl, rfl, rfl, hf⟩ |
        ⟨os, rows', zs, rfl, rfl, rfl, hf⟩
    · cases c with
      | x => cases hgrid
      | y => cases hgrid
    · cases c with
      | x =>
        obtain rfl := Readings.grid.inj hgrid
        exact ⟨os, zs, rfl, rfl, hf⟩
      | y => cases hgrid
    · cases c with
      | x => cases hgrid
      | y =>
        obtain rfl := Readings.grid.inj hgrid
        exact ⟨os, zs, rfl, rfl, hf⟩

/-- The curves of a family run through the lines of its grid, whichever way this is written. -/
theorem exists_lines_of_familyOf (h : familyOf c os rows zs axis = .ok chart) :
    ∃ family o, chart = .surface (.family family) ⟨c.other.argument, o⟩ ∧
      family.outerVariable = c ∧
      Axis.ofSamples os = .ok family.outer ∧ ∀ i : Fin family.outer.samples.size,
        Curve.ofSamples (Rows.line axis rows i) zs c.other.name "z" =
          .ok (family.curveAt (family.outer.place i)) := by
  obtain ⟨o, written, family, ho, hw, hs, hf⟩ := familyOf_eq_ok_iff.mp h
  have hto := (orientationOf_eq_ok_iff.mp ho).2
  obtain ⟨hc, houter, hshape, -⟩ := CurveFamily.ofSamples_eq_ok_iff.mp hs
  have hrows : (written.orient o).rows = family.outer.samples.size := (Prod.mk.inj hshape).1
  refine ⟨family, o, hf.symm, hc, houter, fun i => ?_⟩
  have hi : i.val < (written.orient o).rows := by omega
  rw [← Matrix.row_orient hw hto ⟨i, hi⟩]
  exact CurveFamily.curve_place hs i hi

end Chart

namespace Interpolant

/-- The answer where the variable `outer` is `w` and the other one is `v`. -/
def evalAcross {α : Type} [Scalar α] (f : Interpolant α) (outer : Coordinate) (w v : α) :
    Except (Error α) α :=
  match outer with
  | .x => f.eval2 w v
  | .y => f.eval2 v w

theorem evalAcross_eq {α : Type} [Scalar α] {f : Interpolant α} {family : CurveFamily α}
    {source : GridSource} (hf : f.chart = .surface (.family family) source) (w v : α) :
    f.evalAcross family.outerVariable w v =
      Admission.value <$> family.evalWithin f.bounds w v := by
  cases hc : family.outerVariable with
  | x =>
    rw [← Surface.evalWithin_family_x hc]
    exact eval2_surface hf w v
  | y =>
    rw [← Surface.evalWithin_family_y hc]
    exact eval2_surface hf v w

theorem accepts_family_iff {α : Type} [Scalar α] [LawfulScalar α] (c : Coordinate)
    (os zs : Array α) (rows : Array (Array α)) (options : Options α) :
    (∃ f, build (c.pick (.vector os) (.grid rows)) (c.pick (.grid rows) (.vector os))
      (some (.vector zs)) options = .ok f) ↔
      ValidSamples os ∧ Rows.Spans options.axis rows os.size zs.size ∧
        ∀ i < os.size, ValidSamples (Rows.line options.axis rows i) := by
  rw [exists_build_iff, Chart.ofReadings_pick]
  exact Chart.exists_familyOf_iff

/-- Beside a vector for `z`, one of the coordinates has a grid. -/
theorem exists_grid_of_accepted {x y : Readings ℚ} {zs : Array ℚ} {axis : Option Nat}
    {chart : Chart ℚ} (h : Chart.ofReadings x y (some (.vector zs)) axis = .ok chart) :
    ∃ (c : Coordinate) (rows : Array (Array ℚ)), c.other.pick x y = .grid rows := by
  rcases Chart.ofReadings_surface_eq_ok_iff.mp h with
    ⟨_, _, _, _, _, hz, _⟩ | ⟨_, rows, _, _, hy, _⟩ | ⟨_, rows, _, _, hx, _⟩
  · cases hz
  · exact ⟨.x, rows, hy⟩
  · exact ⟨.y, rows, hx⟩

/-- The chart of a table with a grid for the inner variable. -/
theorem exists_family_of_build {c : Coordinate} {x y : Readings ℚ} {z : Option (Readings ℚ)}
    {rows : Array (Array ℚ)} {options : Options ℚ} {f : Interpolant ℚ}
    (hgrid : c.other.pick x y = .grid rows) (h : build x y z options = .ok f) :
    ∃ os zs, c.pick x y = .vector os ∧ z = some (.vector zs) ∧ f.bounds = options.bounds ∧
      ∃ family source, f.chart = .surface (.family family) source ∧
        family.LaidThrough c os zs (Rows.line options.axis rows) := by
  obtain ⟨hchart, hbounds⟩ := build_eq_ok_iff.mp h
  obtain ⟨os, zs, hos, hzs, hfamily⟩ := Chart.exists_familyOf_of_ofReadings hgrid hchart
  obtain ⟨family, o, hf, hc, houter, hcurve⟩ := Chart.exists_lines_of_familyOf hfamily
  have hsize := Axis.size_of_ofSamples houter
  refine ⟨os, zs, hos, hzs, hbounds, family, _, hf, hc, houter, fun i hi => ?_, hcurve⟩
  exact (Curve.exists_ofSamples_iff.mp ⟨_, hcurve ⟨i, hsize ▸ hi⟩⟩).2

/-- The chart of a table with a vector for `z`, over whichever variable has no grid. -/
theorem exists_lines_of_build {x y : Readings ℚ} {zs : Array ℚ} {options : Options ℚ}
    {f : Interpolant ℚ} (h : build x y (some (.vector zs)) options = .ok f) :
    ∃ (c : Coordinate) (os : Array ℚ) (rows : Array (Array ℚ)), c.pick x y = .vector os ∧
      c.other.pick x y = .grid rows ∧ ∃ family source, f.chart = .surface (.family family) source ∧
        family.LaidThrough c os zs (Rows.line options.axis rows) := by
  obtain ⟨hchart, -⟩ := build_eq_ok_iff.mp h
  obtain ⟨c, rows, hgrid⟩ := exists_grid_of_accepted hchart
  obtain ⟨os, zs', hos, hzs, -, family, source, hf, hl⟩ := exists_family_of_build hgrid h
  obtain rfl := Readings.vector.inj (Option.some.inj hzs)
  exact ⟨c, os, rows, hos, hgrid, family, source, hf, hl⟩

/-- Line `i` with the values along it, as a polyline. -/
def lineCurve (line : Nat → Array ℚ) (zs : Array ℚ) (i : Nat) : ℚ → Option ℚ :=
  polyline ((line i).toList.zip zs.toList)

/-- What an interpolant of a family answers, in terms of its outer samples and its lines: the mean of
the two lines around the outer coordinate, and at an outer sample what its line gives. This is so
within the lines concerned whatever the policy is, and where coordinates are moved, for all. -/
structure ReadsLines (f : Interpolant ℚ) (c : Coordinate) (os zs : Array ℚ)
    (line : Nat → Array ℚ) : Prop where
  between : ∀ i (hi : i + 1 < os.size), ∀ w ∈ openGap os i hi,
    ∀ v, v ∈ span (line i) → v ∈ span (line (i + 1)) →
      ∃ a b, lineCurve line zs i v = some a ∧ lineCurve line zs (i + 1) v = some b ∧
        f.evalAcross c w v = .ok ((1 - share os i hi w) * a + share os i hi w * b)
  sample : ∀ i (_ : i < os.size), ∀ v ∈ span (line i),
    ∃ a, lineCurve line zs i v = some a ∧ f.evalAcross c os[i] v = .ok a
  clamped_between : f.bounds = .clamp → ∀ i (hi : i + 1 < os.size), ∀ u ∈ openGap os i hi,
    ∀ w v, (span os).clamp w = u →
      ∃ a b, lineCurve line zs i ((span (line i)).clamp v) = some a ∧
        lineCurve line zs (i + 1) ((span (line (i + 1))).clamp v) = some b ∧
        f.evalAcross c w v = .ok ((1 - share os i hi u) * a + share os i hi u * b)
  clamped_sample : f.bounds = .clamp → ∀ i (_ : i < os.size), ∀ w v, (span os).clamp w = os[i] →
    ∃ a, lineCurve line zs i ((span (line i)).clamp v) = some a ∧ f.evalAcross c w v = .ok a
  clamped_cases : ∀ w, (∃ i, ∃ _ : i < os.size, (span os).clamp w = os[i]) ∨
    ∃ i, ∃ hi : i + 1 < os.size, (span os).clamp w ∈ openGap os i hi

end Interpolant

end DesignChart
