import Mathlib
import DesignChart.Proofs.Interpolant.Direction

/-!
# Grids written the other way round

To name dimension 1 for a grid is to transpose it: the chart is the one of the grid that has the
columns as its rows with dimension 0, which is also the one with no dimension named. Where there is
no chart, the same argument is blamed, though not in the same words, since a grid is described as it
is written.
-/

namespace DesignChart

open Outcome (Blaming BlameAlike)

variable {α : Type} [Scalar α]

theorem CurveFamily.blaming_rowCurves (rows : Matrix α) (values : Array α) (inner : Coordinate) :
    Blaming (rowCurves rows values inner) := by
  refine .mapM _ fun i => Blaming.inRow ?_ i.val
  refine .bind (Blaming.blame _ _) fun axis => ?_
  split
  · exact .ok _
  · exact .error ⟨_, _, rfl⟩

/-- Grids that are the same once they are turned make the same value grid, or blame the same
argument. -/
theorem ValueGrid.ofSamples_alike (xs ys : Array α) {written other : Matrix α}
    {o o' : Orientation} (h : written.orient o = other.orient o') :
    BlameAlike Eq (ofSamples xs ys written o) (ofSamples xs ys other o') := by
  unfold ofSamples
  refine (Blaming.blame "x" (Axis.ofSamples xs)).alike.bind ?_
  rintro xAxis _ rfl
  refine (Blaming.blame "y" (Axis.ofSamples ys)).alike.bind ?_
  rintro yAxis _ rfl
  by_cases hfit : (written.orient o).rows = xAxis.samples.size ∧
      (written.orient o).columns = yAxis.samples.size
  · have hfit' := h ▸ hfit
    rw [dif_pos hfit, dif_pos hfit']
    refine .accepted ?_
    simp only [h]
  · have hfit' := h ▸ hfit
    rw [dif_neg hfit, dif_neg hfit']
    exact .refused _ _ _

theorem CurveFamily.ofSamples_alike (c : Coordinate) (os values : Array α)
    {written other : Matrix α} {o o' : Orientation} (h : written.orient o = other.orient o') :
    BlameAlike (fun f g => f.outerVariable = c ∧ f = g) (ofSamples c os written o values)
      (ofSamples c os other o' values) := by
  unfold ofSamples
  refine (Blaming.blame c.name (Axis.ofSamples os)).alike.bind ?_
  rintro outer _ rfl
  by_cases hfit : (written.orient o).rows = outer.samples.size ∧
      (written.orient o).columns = values.size
  · have hfit' := h ▸ hfit
    rw [dif_pos hfit, dif_pos hfit']
    have hcurves := congrArg (rowCurves · values c.other) h
    split
    next curves hc =>
      split
      next curves' hc' =>
        obtain rfl := Except.ok.inj (hc.symm.trans (hcurves.trans hc'))
        exact .accepted ⟨rfl, rfl⟩
      next e hc' => cases hc.symm.trans (hcurves.trans hc')
    next e hc =>
      obtain ⟨argument, fault, rfl⟩ := blaming_rowCurves _ _ _ e hc
      split
      next curves' hc' => cases hc.symm.trans (hcurves.trans hc')
      next e' hc' =>
        obtain rfl := Except.error.inj (hc.symm.trans (hcurves.trans hc'))
        exact .refused argument fault fault
  · have hfit' := h ▸ hfit
    rw [dif_neg hfit, dif_neg hfit']
    exact .refused _ _ _

/-- The transpose of a grid is turned back before it is used. -/
theorem orient_transpose {β : Type} (m : Matrix β) :
    m.orient .asWritten = m.transpose.orient .transposed :=
  m.transpose_transpose.symm

namespace Chart

/-- One surface given by the grid for `argument`, which is written as it is used in one chart and
transposed first in the other. -/
def Reoriented (argument : Argument) (chart other : Chart α) : Prop :=
  ∃ s, chart = surface s ⟨argument, .asWritten⟩ ∧ other = surface s ⟨argument, .transposed⟩

/-- The chart of three arguments. -/
def ofThree (given : Argument → Readings α) (axis : Option Nat) : Except (Error α) (Chart α) :=
  ofReadings (given .x) (given .y) (some (given .z)) axis

/-- To name dimension 0 is to name none. -/
theorem ofThree_zero (given : Argument → Readings α) :
    ofThree given (some 0) = ofThree given none := by
  unfold ofThree
  cases given .x <;> cases given .y <;> cases given .z <;> rfl

theorem gridOf_toRows {m : Matrix α} (hrows : 0 < m.rows) (xs ys : Array α) {axis : Option Nat}
    {o : Orientation} (ho : Orientation.ofAxis? (axis.getD 0) = some o) :
    gridOf xs ys m.toRows axis =
      ValueGrid.ofSamples xs ys m o >>= fun grid => .ok (surface (.grid grid) ⟨.z, o⟩) := by
  unfold gridOf orientationOf
  rw [ho, Matrix.ofRows_toRows hrows]
  rfl

theorem familyOf_toRows {m : Matrix α} (hrows : 0 < m.rows) (c : Coordinate) (os zs : Array α)
    {axis : Option Nat} {o : Orientation} (ho : Orientation.ofAxis? (axis.getD 0) = some o) :
    familyOf c os m.toRows zs axis =
      CurveFamily.ofSamples c os m o zs >>= fun family =>
        .ok (surface (.family family) ⟨c.other.argument, o⟩) := by
  unfold familyOf orientationOf
  rw [ho, Matrix.ofRows_toRows hrows]
  rfl

section Transposed

variable {m : Matrix α} (hrows : 0 < m.rows) (hcolumns : 0 < m.columns)

include hrows hcolumns

theorem gridOf_transpose (xs ys : Array α) :
    BlameAlike (Reoriented .z) (gridOf xs ys m.toRows none)
      (gridOf xs ys m.transpose.toRows (some 1)) := by
  have hcolumns' : 0 < m.transpose.rows := hcolumns
  rw [gridOf_toRows hrows xs ys rfl, gridOf_toRows hcolumns' xs ys rfl]
  refine (ValueGrid.ofSamples_alike xs ys (orient_transpose m)).bind ?_
  rintro grid _ rfl
  exact .accepted ⟨.grid grid, rfl, rfl⟩

theorem familyOf_transpose (c : Coordinate) (os zs : Array α) :
    BlameAlike (Reoriented c.other.argument) (familyOf c os m.toRows zs none)
      (familyOf c os m.transpose.toRows zs (some 1)) := by
  have hcolumns' : 0 < m.transpose.rows := hcolumns
  rw [familyOf_toRows hrows c os zs rfl, familyOf_toRows hcolumns' c os zs rfl]
  refine (CurveFamily.ofSamples_alike c os zs (orient_transpose m)).bind ?_
  rintro family _ ⟨rfl, rfl⟩
  exact .accepted ⟨.family family, rfl, rfl⟩

/-- One chart is made of a grid as it is written and of its transpose taken the other way round,
whichever argument it is given for, or the same argument is blamed for both. -/
theorem ofThree_transpose (given : Argument → Readings α) (argument : Argument) :
    BlameAlike (Reoriented argument) (ofThree (Function.update given argument m.toReadings) none)
      (ofThree (Function.update given argument m.transpose.toReadings) (some 1)) := by
  cases argument with
  | x =>
    change BlameAlike _ (ofReadings (.grid m.toRows) (given .y) (some (given .z)) none)
      (ofReadings (.grid m.transpose.toRows) (given .y) (some (given .z)) (some 1))
    cases given .y with
    | grid _ => cases given .z <;> exact .refused _ _ _
    | vector ys =>
      cases given .z with
      | grid _ => exact .refused _ _ _
      | vector zs => exact familyOf_transpose hrows hcolumns .y ys zs
  | y =>
    change BlameAlike _ (ofReadings (given .x) (.grid m.toRows) (some (given .z)) none)
      (ofReadings (given .x) (.grid m.transpose.toRows) (some (given .z)) (some 1))
    cases given .x with
    | grid _ => cases given .z <;> exact .refused _ _ _
    | vector xs =>
      cases given .z with
      | grid _ => exact .refused _ _ _
      | vector zs => exact familyOf_transpose hrows hcolumns .x xs zs
  | z =>
    change BlameAlike _ (ofReadings (given .x) (given .y) (some (.grid m.toRows)) none)
      (ofReadings (given .x) (given .y) (some (.grid m.transpose.toRows)) (some 1))
    cases given .x with
    | grid _ => cases given .y <;> exact .refused _ _ _
    | vector xs =>
      cases given .y with
      | grid _ => exact .refused _ _ _
      | vector ys => exact gridOf_transpose hrows hcolumns xs ys

end Transposed

end Chart

namespace Interpolant

open Chart (Reoriented ofThree)

/-- The interpolant of three arguments. -/
def buildThree (given : Argument → Readings α) (options : Options α) :
    Except (Error α) (Interpolant α) :=
  build (given .x) (given .y) (some (given .z)) options

/-- Where a grid was taken from is of no account when it is read. -/
theorem eval_source (s : Surface α) (source other : GridSource) (policy : RangePolicy α)
    (point : List α) :
    eval ⟨.surface s source, policy⟩ point = eval ⟨.surface s other, policy⟩ point := by
  match point with
  | [] => rfl
  | [x] => rfl
  | [x, y] => rfl
  | x :: y :: z :: rest => rfl

theorem buildThree_eq (given : Argument → Readings α) (options : Options α) :
    buildThree given options =
      (fun chart => (⟨chart, options.bounds⟩ : Interpolant α)) <$> ofThree given options.axis := rfl

theorem SameAnswers.of_reoriented {argument : Argument} {built other : Except (Error α) (Chart α)}
    (h : BlameAlike (Reoriented argument) built other) (policy : RangePolicy α) :
    SameAnswers ((fun chart => (⟨chart, policy⟩ : Interpolant α)) <$> built)
      ((fun chart => (⟨chart, policy⟩ : Interpolant α)) <$> other) := by
  cases h with
  | accepted hs =>
    obtain ⟨s, rfl, rfl⟩ := hs
    refine ⟨⟨fun _ => ⟨_, rfl⟩, fun _ => ⟨_, rfl⟩⟩, fun f g hf hg => ?_, fun f g hf hg point => ?_⟩
    · cases hf
      cases hg
      rfl
    · cases hf
      cases hg
      exact eval_source s _ _ policy point
  | refused name fault other' =>
    refine ⟨⟨fun ⟨f, hf⟩ => ?_, fun ⟨g, hg⟩ => ?_⟩, fun f g hf _ => ?_, fun f g hf _ => ?_⟩
    · cases hf
    · cases hg
    · cases hf
    · cases hf

/-- A grid given for any of the three arguments, with no dimension named, with dimension 0 named, or
with its columns for rows and dimension 1 named, makes one and the same surface, or the same
argument is blamed each time. The interpolants answer alike under every policy. -/
theorem buildThree_either_way_round (given : Argument → Readings α) (argument : Argument)
    {rows : Array (Array α)} (hrows : Rows.Rectangular rows) (hwidth : 0 < Rows.width rows) :
    let stored := Function.update given argument (.grid rows)
    let flipped := Function.update given argument (.grid (Rows.columns rows))
    ofThree stored (some 0) = ofThree stored none ∧
      BlameAlike (Reoriented argument) (ofThree stored none) (ofThree flipped (some 1)) ∧
      ∀ policy : RangePolicy α,
        buildThree stored ⟨some 0, policy⟩ = buildThree stored ⟨none, policy⟩ ∧
          SameAnswers (buildThree stored ⟨none, policy⟩) (buildThree flipped ⟨some 1, policy⟩) := by
  intro stored flipped
  obtain ⟨m, hm⟩ := Matrix.exists_ofRows_iff.mpr hrows
  obtain ⟨-, hsize, hcolumns, -⟩ := Matrix.ofRows_spec hm
  have hzero : ofThree stored (some 0) = ofThree stored none := Chart.ofThree_zero stored
  have halike :
      BlameAlike (Reoriented argument) (ofThree stored none) (ofThree flipped (some 1)) := by
    have hturned := Chart.ofThree_transpose (m := m) (hsize ▸ hrows.size_pos) (hcolumns ▸ hwidth)
      given argument
    unfold Matrix.toReadings at hturned
    rwa [Matrix.toRows_of_ofRows hm, Matrix.toRows_transpose hm] at hturned
  refine ⟨hzero, halike, fun policy => ?_⟩
  rw [buildThree_eq, buildThree_eq, buildThree_eq, hzero]
  exact ⟨rfl, SameAnswers.of_reoriented halike policy⟩

/-- Two lines of three samples each, which belong to an outer variable listed downwards. -/
theorem buildThree_either_way_round_lines :
    let given : Argument → Readings Float
      | .x => .vector #[1, 0]
      | _ => .vector #[0, 1, 2]
    ∃ s : Surface Float,
      ofThree (Function.update given .y (.grid #[#[0, 1, 2], #[5, 4, 3]])) none =
        .ok (.surface s ⟨.y, .asWritten⟩) ∧
      ofThree (Function.update given .y (.grid #[#[0, 5], #[1, 4], #[2, 3]])) (some 1) =
        .ok (.surface s ⟨.y, .transposed⟩) := by
  intro given
  have hrows : Rows.Rectangular #[#[(0 : Float), 1, 2], #[5, 4, 3]] := ⟨by decide, by decide⟩
  have hlines : ∀ i < 2, ValidSamples (Rows.line none #[#[(0 : Float), 1, 2], #[5, 4, 3]] i) := by
    decide +kernel
  have htable : Chart.TabulatesFamily (.vector #[(1 : Float), 0])
      (.grid #[#[0, 1, 2], #[5, 4, 3]]) (.vector #[0, 1, 2]) none :=
    ⟨_, _, _, rfl, rfl, rfl, by decide +kernel, ⟨Or.inl rfl, hrows, by decide +kernel⟩, hlines⟩
  obtain ⟨chart, hchart⟩ := Chart.exists_surface_iff.mpr (Or.inr (Or.inl htable))
  have halike := (buildThree_either_way_round given .y hrows (by decide)).2.1
  obtain ⟨other, hother, s, rfl, rfl⟩ := halike.of_ok hchart
  have hcolumns :
      Rows.columns #[#[(0 : Float), 1, 2], #[5, 4, 3]] = #[#[0, 5], #[1, 4], #[2, 3]] := by
    cbv
  rw [hcolumns] at hother
  exact ⟨s, hchart, hother⟩

end Interpolant

end DesignChart
