import Mathlib
import DesignChart.Chart
import DesignChart.Proofs.Chart.Domain
import DesignChart.Proofs.Matrix.Rearranged

/-!
# Charts tabulated in the other direction

A table may list each of its variables in either direction. Turning the samples of a variable round
together with all data that follow them gives the same chart, but for the record of the direction.
That record is of no account when the chart is read.
-/

namespace DesignChart

variable {α : Type} [Scalar α]

namespace Curve

/-- The curve with its samples taken as supplied in the other direction. -/
def turn (curve : Curve α) (turn : Bool) : Curve α := { curve with axis := curve.axis.turn turn }

omit [Scalar α] in
theorem range_turn (curve : Curve α) (turn : Bool) : (curve.turn turn).range = curve.range := rfl

theorem eval_turn (curve : Curve α) (turn : Bool) (v : α) :
    (curve.turn turn).eval v = curve.eval v := by
  have hcell : (curve.turn turn).axis.locate v = (curve.axis.locate v).turn turn :=
    curve.axis.locate_turn turn v
  rw [eval_eq_read, hcell]
  rfl

theorem ofSamples_turn [LawfulScalar α] {xs ys : Array α} {xName yName : String} {curve : Curve α}
    (h : ofSamples xs ys xName yName = .ok curve) (turn : Bool) :
    ofSamples (reverseIf turn xs) (reverseIf turn ys) xName yName = .ok (curve.turn turn) := by
  obtain ⟨haxis, hsize, hkept⟩ := ofSamples_eq_ok_iff.mp h
  refine ofSamples_eq_ok_iff.mpr ⟨Axis.ofSamples_turn haxis turn, ?_, ?_⟩
  · rw [size_reverseIf]
    exact hsize
  · exact hkept.trans (Axis.reorder_turn curve.axis turn ys).symm

end Curve

namespace ValueGrid

/-- The value grid with the samples of either variable taken as supplied in the other direction. -/
def turn (grid : ValueGrid α) (turnX turnY : Bool) : ValueGrid α :=
  { grid with xAxis := grid.xAxis.turn turnX, yAxis := grid.yAxis.turn turnY }

theorem eval_turn (grid : ValueGrid α) (turnX turnY : Bool) (x y : α) :
    (grid.turn turnX turnY).eval x y = grid.eval x y := by
  have hx : (grid.turn turnX turnY).xAxis.locate x = (grid.xAxis.locate x).turn turnX :=
    grid.xAxis.locate_turn turnX x
  have hy : (grid.turn turnX turnY).yAxis.locate y = (grid.yAxis.locate y).turn turnY :=
    grid.yAxis.locate_turn turnY y
  rw [eval_eq_read, hx, hy]
  rfl

theorem ofSamples_turn [LawfulScalar α] {xs ys : Array α} {written written' : Matrix α}
    {o : Orientation} {grid : ValueGrid α} {turnX turnY : Bool}
    (hw : written'.orient o = (written.orient o).turn turnX turnY)
    (h : ofSamples xs ys written o = .ok grid) :
    ofSamples (reverseIf turnX xs) (reverseIf turnY ys) written' o =
      .ok (grid.turn turnX turnY) := by
  obtain ⟨hx, hy, hs, hkept⟩ := ofSamples_eq_ok_iff.mp h
  refine ofSamples_eq_ok_iff.mpr
    ⟨Axis.ofSamples_turn hx turnX, Axis.ofSamples_turn hy turnY, ?_, ?_⟩
  · rw [hw]
    exact (Prod.ext (Matrix.rows_turn _ _ _) (Matrix.columns_turn _ _ _)).trans hs
  · -- the values are turned on the way in and turned back when they are put in order
    rw [hw]
    change grid.values = ((written.orient o).turn turnX turnY).turn (grid.xAxis.reversed ^^ turnX)
      (grid.yAxis.reversed ^^ turnY)
    rw [Matrix.turn_turn, Bool.xor_left_comm, Bool.xor_self, Bool.xor_false, Bool.xor_left_comm,
      Bool.xor_self, Bool.xor_false]
    exact hkept

end ValueGrid

namespace CurveFamily

/-- The family with its outer samples, or the samples of all curves, taken as supplied in the other
direction. -/
def turn (family : CurveFamily α) (turnOuter turnInner : Bool) : CurveFamily α where
  outerVariable := family.outerVariable
  outer := family.outer.turn turnOuter
  curves := family.curves.map (·.turn turnInner)
  size_curves := Array.size_map.trans family.size_curves

omit [Scalar α] in
theorem curveAt_turn (family : CurveFamily α) (turnOuter turnInner : Bool)
    (i : Fin family.outer.samples.size) :
    (family.turn turnOuter turnInner).curveAt i = (family.curveAt i).turn turnInner := by
  simp [curveAt, turn]

theorem innerRange_turn (family : CurveFamily α) (turnOuter turnInner : Bool) :
    (family.turn turnOuter turnInner).innerRange = family.innerRange := by
  have hfirst := congrArg Curve.range
    (family.curveAt_turn turnOuter turnInner ⟨0, family.outer.size_pos⟩)
  rw [innerRange_eq, innerRange_eq]
  congr 1
  simp [turn, Function.comp_def, Curve.range_turn]

theorem ofSamples_turn [LawfulScalar α] {c : Coordinate} {os : Array α}
    {written written' : Matrix α} {o : Orientation} {values : Array α} {family : CurveFamily α}
    {turnOuter turnInner : Bool}
    (hw : written'.orient o = (written.orient o).turn turnOuter turnInner)
    (h : ofSamples c os written o values = .ok family) :
    ofSamples c (reverseIf turnOuter os) written' o (reverseIf turnInner values) =
      .ok (family.turn turnOuter turnInner) := by
  obtain ⟨hc, houter, hs, hcurve⟩ := ofSamples_eq_ok_iff_curves.mp h
  have hrows : (written.orient o).rows = family.outer.samples.size := (Prod.mk.inj hs).1
  refine ofSamples_eq_ok_iff_curves.mpr ⟨hc, Axis.ofSamples_turn houter turnOuter, ?_, ?_⟩
  · rw [hw, size_reverseIf]
    exact (Prod.ext (Matrix.rows_turn _ _ _) (Matrix.columns_turn _ _ _)).trans hs
  · rw [hw]
    intro (i : Fin family.outer.samples.size) hi
    -- row `i` is the row that was supplied in place `k`
    let k : Fin family.outer.samples.size := if turnOuter then i.rev else i
    have hk : k.val < (written.orient o).rows := by
      rw [hrows]
      exact k.isLt
    have hi' : i.val = Matrix.turned (written.orient o).rows turnOuter k := by
      rw [hrows]
      cases turnOuter with
      | false => rfl
      | true =>
        have hlt : i.val < family.outer.samples.size := i.isLt
        have hrev : k.val = family.outer.samples.size - (i.val + 1) := Fin.val_rev i
        change i.val = family.outer.samples.size - 1 - k.val
        omega
    have hplace : (family.turn turnOuter turnInner).outer.place i = family.outer.place k :=
      family.outer.place_turn turnOuter i
    rw [Matrix.row_turn (i := ⟨k, hk⟩) (j := ⟨i, hi⟩) _ turnOuter turnInner hi', hplace,
      curveAt_turn]
    exact Curve.ofSamples_turn (hcurve k hk) turnInner

end CurveFamily

/-- The readings in opposite order, row by row in case of a grid, if `turn` says so. -/
def Readings.turn {β : Type} (turn : Bool) : Readings β → Readings β
  | .vector values => .vector (reverseIf turn values)
  | .grid rows => .grid (reverseIf turn rows)

@[simp]
theorem Readings.turn_turn {β : Type} (turn : Bool) (readings : Readings β) :
    (readings.turn turn).turn turn = readings := by
  cases readings <;> simp [Readings.turn]

/-- The surface with the samples of its variables taken as supplied in the other direction, first
those along the lines of its grid and then those along each line. -/
def Surface.turn (turnLines turnAlong : Bool) : Surface α → Surface α
  | .grid g => .grid (g.turn turnLines turnAlong)
  | .family f => .family (f.turn turnLines turnAlong)

theorem Surface.domain_turn (a b : Bool) (surface : Surface α) :
    (surface.turn a b).domain = surface.domain := by
  cases surface with
  | grid g => rfl
  | family f =>
    have hinner := f.innerRange_turn a b
    have hvariable : (f.turn a b).outerVariable = f.outerVariable := rfl
    have houter : (f.turn a b).outer.range = f.outer.range := rfl
    change domain (.family (f.turn a b)) = _
    simp only [domain, hinner, hvariable, houter]

namespace Chart

/-- The chart with the samples of its variables taken as supplied in the other direction. -/
def turn (turnFirst turnSecond : Bool) : Chart α → Chart α
  | curve c => curve (c.turn turnFirst)
  | surface s source => surface (s.turn turnFirst turnSecond) source

theorem domain_turn (a b : Bool) (chart : Chart α) : (chart.turn a b).domain = chart.domain := by
  cases chart with
  | curve c => rfl
  | surface s source => exact s.domain_turn a b

variable [LawfulScalar α] {axis : Option Nat} {chart : Chart α}

theorem ofReadings_turn_curve {x y : Readings α} (h : ofReadings x y none axis = .ok chart)
    (a : Bool) : ofReadings (x.turn a) (y.turn a) none axis = .ok (chart.turn a a) := by
  obtain ⟨c, hc, rfl⟩ := ofReadings_curve_eq_ok_iff.mp h
  obtain ⟨haxis, xs, ys, rfl, rfl, hs⟩ := curveOf_eq_ok_iff.mp hc
  refine ofReadings_curve_eq_ok_iff.mpr ⟨c.turn a, curveOf_eq_ok_iff.mpr ?_, rfl⟩
  exact ⟨haxis, _, _, rfl, rfl, Curve.ofSamples_turn hs a⟩

theorem gridOf_turn {xs ys : Array α} {rows : Array (Array α)}
    (h : gridOf xs ys rows axis = .ok chart) (a b : Bool) :
    gridOf (reverseIf a xs) (reverseIf b ys) (Rows.turn axis a b rows) axis =
      .ok (chart.turn a b) := by
  obtain ⟨o, written, grid, ho, hw, hg, rfl⟩ := gridOf_eq_ok_iff.mp h
  obtain ⟨written', hw', hturn⟩ :=
    Matrix.exists_ofRows_turn hw (orientationOf_eq_ok_iff.mp ho).2 a b
  exact gridOf_eq_ok_iff.mpr
    ⟨o, written', grid.turn a b, ho, hw', ValueGrid.ofSamples_turn hturn hg, rfl⟩

theorem familyOf_turn {c : Coordinate} {os zs : Array α} {rows : Array (Array α)}
    (h : familyOf c os rows zs axis = .ok chart) (a b : Bool) :
    familyOf c (reverseIf a os) (Rows.turn axis a b rows) (reverseIf b zs) axis =
      .ok (chart.turn a b) := by
  obtain ⟨o, written, family, ho, hw, hf, rfl⟩ := familyOf_eq_ok_iff.mp h
  obtain ⟨written', hw', hturn⟩ :=
    Matrix.exists_ofRows_turn hw (orientationOf_eq_ok_iff.mp ho).2 a b
  exact familyOf_eq_ok_iff.mpr
    ⟨o, written', family.turn a b, ho, hw', CurveFamily.ofSamples_turn hturn hf, rfl⟩

theorem ofReadings_turn_grid {x y : Readings α} {rows : Array (Array α)}
    (h : ofReadings x y (some (.grid rows)) axis = .ok chart) (a b : Bool) :
    ofReadings (x.turn a) (y.turn b) (some (.grid (Rows.turn axis a b rows))) axis =
      .ok (chart.turn a b) := by
  rcases ofReadings_surface_eq_ok_iff.mp h with
    ⟨xs, ys, _, rfl, rfl, hz, hg⟩ | ⟨_, _, _, _, _, hz, _⟩ | ⟨_, _, _, _, _, hz, _⟩
  · obtain rfl := Readings.grid.inj hz
    exact gridOf_turn hg a b
  · cases hz
  · cases hz

theorem ofReadings_turn_family_x {x z : Readings α} {rows : Array (Array α)}
    (h : ofReadings x (.grid rows) (some z) axis = .ok chart) (a b : Bool) :
    ofReadings (x.turn a) (.grid (Rows.turn axis a b rows)) (some (z.turn b)) axis =
      .ok (chart.turn a b) := by
  rcases ofReadings_surface_eq_ok_iff.mp h with
    ⟨_, _, _, _, hy, _, _⟩ | ⟨os, _, zs, rfl, hy, rfl, hf⟩ | ⟨_, _, _, hy, _, _, _⟩
  · cases hy
  · obtain rfl := Readings.grid.inj hy
    exact familyOf_turn hf a b
  · cases hy

theorem ofReadings_turn_family_y {y z : Readings α} {rows : Array (Array α)}
    (h : ofReadings (.grid rows) y (some z) axis = .ok chart) (a b : Bool) :
    ofReadings (.grid (Rows.turn axis a b rows)) (y.turn a) (some (z.turn b)) axis =
      .ok (chart.turn a b) := by
  rcases ofReadings_surface_eq_ok_iff.mp h with
    ⟨_, _, _, hx, _, _, _⟩ | ⟨_, _, _, hx, _, _, _⟩ | ⟨os, _, zs, rfl, hx, rfl, hf⟩
  · cases hx
  · cases hx
  · obtain rfl := Readings.grid.inj hx
    exact familyOf_turn hf a b

end Chart

end DesignChart
