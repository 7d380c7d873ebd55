import Mathlib
import DesignChart.Chart
import DesignChart.Proofs.Chart.CurveFamily
import DesignChart.Proofs.Chart.ValueGrid
import DesignChart.Proofs.Scalar.Double

/-!
# Which arguments tabulate a chart

The checks on three arguments are spread over their kinds, the dimension named, the rows of the
grid, the axes and the shapes. Taken together they accept the tables described below and no others,
and the argument that is a grid decides the layout of the chart.
-/

namespace DesignChart

/-- A grid of `n` lines with `m` entries each, `axis` being the dimension along the first variable
where it is named. -/
structure Rows.Spans {α : Type} (axis : Option Nat) (rows : Array (Array α)) (n m : Nat) : Prop where
  dimension : axis = none ∨ axis = some 0 ∨ axis = some 1
  rectangular : Rows.Rectangular rows
  extent : Rows.extent axis rows = (n, m)

namespace Chart

section Checks

variable {α : Type}

theorem checkCurveAxis_eq_ok_iff {axis : Option Nat} :
    checkCurveAxis (α := α) axis = .ok () ↔ axis = none ∨ axis = some 0 := by
  unfold checkCurveAxis
  split
  · simp
  · simp
  next k hk => simpa using hk

theorem curveVector_eq_ok_iff {argument : Argument} {readings : Readings α} {values : Array α} :
    curveVector argument readings = .ok values ↔ readings = .vector values := by
  cases readings with
  | vector other => simp [curveVector]
  | grid rows => simp [curveVector]

/-- The way a grid is written follows from the dimension named. -/
theorem orientationOf_eq_ok_iff {argument : Argument} {axis : Option Nat} {o : Orientation} :
    orientationOf (α := α) argument axis = .ok o ↔
      (axis = none ∨ axis = some 0 ∨ axis = some 1) ∧ (o = .transposed ↔ axis = some 1) := by
  unfold orientationOf Orientation.ofAxis?
  rcases axis with _ | _ | _ | k
  · cases o <;> simp
  · cases o <;> simp
  · cases o <;> simp
  · simp

/-- A grid that is turned as the dimension says has as many rows as it has lines. -/
theorem exists_oriented_iff (argument : Argument) {rows : Array (Array α)} {axis : Option Nat}
    {n m : Nat} :
    (∃ o written, orientationOf (α := α) argument axis = .ok o ∧
      Matrix.ofRows rows = .ok written ∧ (written.orient o).shape = (n, m)) ↔
      Rows.Spans axis rows n m := by
  constructor
  · rintro ⟨o, written, ho, hw, hs⟩
    obtain ⟨hdim, hto⟩ := orientationOf_eq_ok_iff.mp ho
    rw [Matrix.shape_orient hw hto] at hs
    exact ⟨hdim, (Matrix.ofRows_spec hw).1, hs⟩
  · rintro ⟨hdim, hrect, hs⟩
    obtain ⟨written, hw⟩ := Matrix.exists_ofRows_iff.mpr hrect
    obtain ⟨o, hto⟩ : ∃ o : Orientation, o = .transposed ↔ axis = some 1 := by
      by_cases haxis : axis = some 1
      · exact ⟨.transposed, by simp [haxis]⟩
      · exact ⟨.asWritten, by simp [haxis]⟩
    refine ⟨o, written, orientationOf_eq_ok_iff.mpr ⟨hdim, hto⟩, hw, ?_⟩
    rw [Matrix.shape_orient hw hto, hs]

end Checks

variable {α : Type} [Scalar α]

/-- The arguments tabulate `y` over `x`. -/
def TabulatesCurve (x y : Readings α) (axis : Option Nat) : Prop :=
  (axis = none ∨ axis = some 0) ∧ ∃ xs ys, x = .vector xs ∧ y = .vector ys ∧
    ValidSamples xs ∧ xs.size = ys.size

/-- The arguments tabulate `z` over `x` and `y`. -/
def TabulatesGrid (x y z : Readings α) (axis : Option Nat) : Prop :=
  ∃ xs ys rows, x = .vector xs ∧ y = .vector ys ∧ z = .grid rows ∧
    ValidSamples xs ∧ ValidSamples ys ∧ Rows.Spans axis rows xs.size ys.size

/-- The arguments tabulate, for each number of `outer`, the `inner` at which each `z` is reached. -/
def TabulatesFamily (outer inner z : Readings α) (axis : Option Nat) : Prop :=
  ∃ os rows zs, outer = .vector os ∧ inner = .grid rows ∧ z = .vector zs ∧
    ValidSamples os ∧ Rows.Spans axis rows os.size zs.size ∧
      ∀ i < os.size, ValidSamples (Rows.line axis rows i)

theorem curveOf_eq_ok_iff {x y : Readings α} {axis : Option Nat} {c : Curve α} :
    curveOf x y axis = .ok c ↔
      (axis = none ∨ axis = some 0) ∧ ∃ xs ys, x = .vector xs ∧ y = .vector ys ∧
        Curve.ofSamples xs ys "x" "y" = .ok c := by
  unfold curveOf
  simp only [Outcome.bind_eq_ok, curveVector_eq_ok_iff]
  constructor
  · rintro ⟨_, haxis, xs, hx, ys, hy, hc⟩
    exact ⟨checkCurveAxis_eq_ok_iff.mp haxis, xs, ys, hx, hy, hc⟩
  · rintro ⟨haxis, xs, ys, hx, hy, hc⟩
    exact ⟨(), checkCurveAxis_eq_ok_iff.mpr haxis, xs, hx, ys, hy, hc⟩

theorem gridOf_eq_ok_iff {xs ys : Array α} {rows : Array (Array α)} {axis : Option Nat}
    {chart : Chart α} :
    gridOf xs ys rows axis = .ok chart ↔ ∃ o written grid,
      orientationOf (α := α) .z axis = .ok o ∧ Matrix.ofRows rows = .ok written ∧
        ValueGrid.ofSamples xs ys written o = .ok grid ∧ surface (.grid grid) ⟨.z, o⟩ = chart := by
  unfold gridOf
  simp only [Outcome.bind_eq_ok, Outcome.blame_eq_ok]
  constructor
  · rintro ⟨o, ho, written, hw, grid, hg, hchart⟩
    exact ⟨o, written, grid, ho, hw, hg, Except.ok.inj hchart⟩
  · rintro ⟨o, written, grid, ho, hw, hg, hchart⟩
    exact ⟨o, ho, written, hw, grid, hg, congrArg Except.ok hchart⟩

theorem familyOf_eq_ok_iff {c : Coordinate} {os : Array α} {rows : Array (Array α)}
    {zs : Array α} {axis : Option Nat} {chart : Chart α} :
    familyOf c os rows zs axis = .ok chart ↔ ∃ o written family,
      orientationOf (α := α) c.other.argument axis = .ok o ∧ Matrix.ofRows rows = .ok written ∧
        CurveFamily.ofSamples c os written o zs = .ok family ∧
          surface (.family family) ⟨c.other.argument, o⟩ = chart := by
  unfold familyOf
  simp only [Outcome.bind_eq_ok, Outcome.blame_eq_ok]
  constructor
  · rintro ⟨o, ho, written, hw, family, hf, hchart⟩
    exact ⟨o, written, family, ho, hw, hf, Except.ok.inj hchart⟩
  · rintro ⟨o, written, family, ho, hw, hf, hchart⟩
    exact ⟨o, ho, written, hw, family, hf, congrArg Except.ok hchart⟩

theorem ofReadings_curve_eq_ok_iff {x y : Readings α} {axis : Option Nat} {chart : Chart α} :
    ofReadings x y none axis = .ok chart ↔ ∃ c, curveOf x y axis = .ok c ∧ curve c = chart := by
  unfold ofReadings
  exact Outcome.map_eq_ok

/-- A table over two variables has one grid among its arguments. -/
theorem ofReadings_surface_eq_ok_iff {x y z : Readings α} {axis : Option Nat} {chart : Chart α} :
    ofReadings x y (some z) axis = .ok chart ↔
      (∃ xs ys rows, x = .vector xs ∧ y = .vector ys ∧ z = .grid rows ∧
        gridOf xs ys rows axis = .ok chart) ∨
      (∃ xs rows zs, x = .vector xs ∧ y = .grid rows ∧ z = .vector zs ∧
        familyOf .x xs rows zs axis = .ok chart) ∨
      (∃ ys rows zs, y = .vector ys ∧ x = .grid rows ∧ z = .vector zs ∧
        familyOf .y ys rows zs axis = .ok chart) := by
  cases x <;> cases y <;> cases z <;> simp [ofReadings]

/-- The rows of a turned grid are its lines. -/
theorem validSamples_rows_iff {rows : Array (Array α)} {axis : Option Nat} {written : Matrix α}
    {o : Orientation} {n m : Nat} (hw : Matrix.ofRows rows = .ok written)
    (hto : o = .transposed ↔ axis = some 1) (hs : (written.orient o).shape = (n, m)) :
    (∀ i, ValidSamples ((written.orient o).row i)) ↔
      ∀ i < n, ValidSamples (Rows.line axis rows i) := by
  have hrows : (written.orient o).rows = n := (Prod.mk.inj hs).1
  simp only [Matrix.row_orient hw hto]
  constructor
  · intro h i hi
    exact h ⟨i, by omega⟩
  · intro h i
    exact h i (by omega)

variable [LawfulScalar α]

theorem exists_curveOf_iff {x y : Readings α} {axis : Option Nat} :
    (∃ c, curveOf x y axis = .ok c) ↔ TabulatesCurve x y axis := by
  constructor
  · rintro ⟨c, h⟩
    obtain ⟨haxis, xs, ys, hx, hy, hc⟩ := curveOf_eq_ok_iff.mp h
    obtain ⟨hv, hs⟩ := Curve.exists_ofSamples_iff.mp ⟨c, hc⟩
    exact ⟨haxis, xs, ys, hx, hy, hv, hs.symm⟩
  · rintro ⟨haxis, xs, ys, hx, hy, hv, hs⟩
    have hcurve : ∃ c, Curve.ofSamples xs ys "x" "y" = .ok c :=
      Curve.exists_ofSamples_iff.mpr ⟨hv, hs.symm⟩
    obtain ⟨c, hc⟩ := hcurve
    exact ⟨c, curveOf_eq_ok_iff.mpr ⟨haxis, xs, ys, hx, hy, hc⟩⟩

theorem exists_gridOf_iff {xs ys : Array α} {rows : Array (Array α)} {axis : Option Nat} :
    (∃ chart, gridOf xs ys rows axis = .ok chart) ↔
      ValidSamples xs ∧ ValidSamples ys ∧ Rows.Spans axis rows xs.size ys.size := by
  constructor
  · rintro ⟨chart, h⟩
    obtain ⟨o, written, grid, ho, hw, hg, -⟩ := gridOf_eq_ok_iff.mp h
    obtain ⟨hx, hy, hs⟩ := ValueGrid.exists_ofSamples_iff.mp ⟨grid, hg⟩
    exact ⟨hx, hy, (exists_oriented_iff _).mp ⟨o, written, ho, hw, hs⟩⟩
  · rintro ⟨hx, hy, hspans⟩
    obtain ⟨o, written, ho, hw, hs⟩ := (exists_oriented_iff _).mpr hspans
    obtain ⟨grid, hg⟩ := ValueGrid.exists_ofSamples_iff.mpr ⟨hx, hy, hs⟩
    exact ⟨_, gridOf_eq_ok_iff.mpr ⟨o, written, grid, ho, hw, hg, rfl⟩⟩

theorem exists_familyOf_iff {c : Coordinate} {os : Array α} {rows : Array (Array α)}
    {zs : Array α} {axis : Option Nat} :
    (∃ chart, familyOf c os rows zs axis = .ok chart) ↔
      ValidSamples os ∧ Rows.Spans axis rows os.size zs.size ∧
        ∀ i < os.size, ValidSamples (Rows.line axis rows i) := by
  constructor
  · rintro ⟨chart, h⟩
    obtain ⟨o, written, family, ho, hw, hf, -⟩ := familyOf_eq_ok_iff.mp h
    obtain ⟨hv, hs, hrows⟩ := CurveFamily.exists_ofSamples_iff.mp ⟨family, hf⟩
    refine ⟨hv, (exists_oriented_iff _).mp ⟨o, written, ho, hw, hs⟩, ?_⟩
    exact (validSamples_rows_iff hw (orientationOf_eq_ok_iff.mp ho).2 hs).mp hrows
  · rintro ⟨hv, hspans, hlines⟩
    obtain ⟨o, written, ho, hw, hs⟩ := (exists_oriented_iff c.other.argument).mpr hspans
    have hrows :=
      (validSamples_rows_iff hw (orientationOf_eq_ok_iff.mp ho).2 hs).mpr hlines
    obtain ⟨family, hf⟩ := (CurveFamily.exists_ofSamples_iff (c := c)).mpr ⟨hv, hs, hrows⟩
    exact ⟨_, familyOf_eq_ok_iff.mpr ⟨o, written, family, ho, hw, hf, rfl⟩⟩

theorem exists_surface_iff {x y z : Readings α} {axis : Option Nat} :
    (∃ chart, ofReadings x y (some z) axis = .ok chart) ↔
      TabulatesGrid x y z axis ∨ TabulatesFamily x y z axis ∨ TabulatesFamily y x z axis := by
  constructor
  · rintro ⟨chart, h⟩
    rcases ofReadings_surface_eq_ok_iff.mp h with
      ⟨xs, ys, rows, hx, hy, hz, hg⟩ | ⟨xs, rows, zs, hx, hy, hz, hf⟩ | ⟨ys, rows, zs, hy, hx, hz, hf⟩
    · exact Or.inl ⟨xs, ys, rows, hx, hy, hz, exists_gridOf_iff.mp ⟨chart, hg⟩⟩
    · exact Or.inr (Or.inl ⟨xs, rows, zs, hx, hy, hz, exists_familyOf_iff.mp ⟨chart, hf⟩⟩)
    · exact Or.inr (Or.inr ⟨ys, rows, zs, hy, hx, hz, exists_familyOf_iff.mp ⟨chart, hf⟩⟩)
  · rintro (⟨xs, ys, rows, hx, hy, hz, ht⟩ | ⟨xs, rows, zs, hx, hy, hz, ht⟩ |
      ⟨ys, rows, zs, hy, hx, hz, ht⟩)
    · obtain ⟨chart, hg⟩ := exists_gridOf_iff.mpr ht
      exact ⟨chart, ofReadings_surface_eq_ok_iff.mpr (Or.inl ⟨xs, ys, rows, hx, hy, hz, hg⟩)⟩
    · obtain ⟨chart, hf⟩ := (exists_familyOf_iff (c := .x)).mpr ht
      exact ⟨chart,
        ofReadings_surface_eq_ok_iff.mpr (Or.inr (Or.inl ⟨xs, rows, zs, hx, hy, hz, hf⟩))⟩
    · obtain ⟨chart, hf⟩ := (exists_familyOf_iff (c := .y)).mpr ht
      exact ⟨chart,
        ofReadings_surface_eq_ok_iff.mpr (Or.inr (Or.inr ⟨ys, rows, zs, hy, hx, hz, hf⟩))⟩

/-- The layout of a chart over two variables and the argument that it names as its grid, told by the
argument that is one. -/
structure LaidOut (x y z : Readings α) (surface : Surface α) (source : GridSource) : Prop where
  of_z : z.isGrid = true → source.argument = .z ∧ ∃ grid, surface = .grid grid
  of_y : y.isGrid = true → source.argument = .y ∧
    ∃ family, surface = .family family ∧ family.outerVariable = .x
  of_x : x.isGrid = true → source.argument = .x ∧
    ∃ family, surface = .family family ∧ family.outerVariable = .y

omit [LawfulScalar α] in
theorem laidOut_of_ofReadings {x y z : Readings α} {axis : Option Nat} {chart : Chart α}
    (h : ofReadings x y (some z) axis = .ok chart) :
    ∃ s source, chart = surface s source ∧ LaidOut x y z s source := by
  rcases ofReadings_surface_eq_ok_iff.mp h with
    ⟨xs, ys, rows, rfl, rfl, rfl, hg⟩ | ⟨xs, rows, zs, rfl, rfl, rfl, hf⟩ |
      ⟨ys, rows, zs, rfl, rfl, rfl, hf⟩
  · obtain ⟨o, written, grid, -, -, -, rfl⟩ := gridOf_eq_ok_iff.mp hg
    exact ⟨.grid grid, _, rfl, fun _ => ⟨rfl, grid, rfl⟩, nofun, nofun⟩
  · obtain ⟨o, written, family, -, -, hs, rfl⟩ := familyOf_eq_ok_iff.mp hf
    obtain ⟨houter, -⟩ := CurveFamily.ofSamples_eq_ok_iff.mp hs
    exact ⟨.family family, _, rfl, nofun, fun _ => ⟨rfl, family, rfl, houter⟩, nofun⟩
  · obtain ⟨o, written, family, -, -, hs, rfl⟩ := familyOf_eq_ok_iff.mp hf
    obtain ⟨houter, -⟩ := CurveFamily.ofSamples_eq_ok_iff.mp hs
    exact ⟨.family family, _, rfl, nofun, nofun, fun _ => ⟨rfl, family, rfl, houter⟩⟩

/-- Three arguments of doubles make a chart exactly if they tabulate one, and the argument that is a
grid decides how it is laid out. -/
theorem ofReadings_accepts_tables (x y : Readings Float) (axis : Option Nat) :
    ((∃ chart, ofReadings x y none axis = .ok chart) ↔ TabulatesCurve x y axis) ∧
      (∀ chart, ofReadings x y none axis = .ok chart → ∃ c, chart = curve c) ∧
      ∀ z : Readings Float,
        ((∃ chart, ofReadings x y (some z) axis = .ok chart) ↔
          TabulatesGrid x y z axis ∨ TabulatesFamily x y z axis ∨ TabulatesFamily y x z axis) ∧
        ∀ chart, ofReadings x y (some z) axis = .ok chart →
          ∃ s source, chart = surface s source ∧ LaidOut x y z s source := by
  refine ⟨?_, ?_, fun z => ⟨exists_surface_iff, fun chart h => laidOut_of_ofReadings h⟩⟩
  · rw [← exists_curveOf_iff]
    constructor
    · rintro ⟨chart, h⟩
      obtain ⟨c, hc, -⟩ := ofReadings_curve_eq_ok_iff.mp h
      exact ⟨c, hc⟩
    · rintro ⟨c, hc⟩
      exact ⟨curve c, ofReadings_curve_eq_ok_iff.mpr ⟨c, hc, rfl⟩⟩
  · intro chart h
    obtain ⟨c, -, hchart⟩ := ofReadings_curve_eq_ok_iff.mp h
    exact ⟨c, hchart.symm⟩

/-- A family whose rows run in different directions, written column by column. -/
theorem ofReadings_accepts_a_family :
    ∃ s source, ofReadings (.vector #[(0 : Float), 1]) (.grid #[#[0, 1], #[1, 0]])
        (some (.vector #[0, 1])) (some 1) = .ok (surface s source) ∧
      source.argument = .y ∧ ∃ family, s = .family family ∧ family.outerVariable = .x := by
  have h := (ofReadings_accepts_tables (.vector #[(0 : Float), 1]) (.grid #[#[0, 1], #[1, 0]])
    (some 1)).2.2 (.vector #[0, 1])
  have hlines : ∀ i < 2, ValidSamples (Rows.line (some 1) #[#[(0 : Float), 1], #[1, 0]] i) := by
    decide +kernel
  obtain ⟨chart, hchart⟩ := h.1.mpr (Or.inr (Or.inl ⟨_, _, _, rfl, rfl, rfl, by decide +kernel,
    ⟨by decide, ⟨by decide, by decide⟩, rfl⟩, hlines⟩))
  obtain ⟨s, source, rfl, hl⟩ := h.2 chart hchart
  exact ⟨s, source, hchart, hl.of_y rfl⟩

end Chart

end DesignChart
