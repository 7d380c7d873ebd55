import Mathlib
import DesignChart.Proofs.Interpolant.Families

/-!
# The argument that is blamed

A table that makes no chart has something wrong with it, and the argument that is blamed is one of
which that is so. What can be wrong with each argument is listed here in terms of the numbers
supplied: it depends on which arguments are grids, on the dimension named, on the shape of the grid
and on the samples. Where several arguments are at fault, which one comes first is not said.
-/

namespace DesignChart

open Outcome (FailsOnly)

/-- `rows` make no grid of `n` lines with `m` entries each: there are none, they differ in length, or
they have another shape. -/
def Rows.Misshapen {α : Type} (axis : Option Nat) (rows : Array (Array α)) (n m : Nat) : Prop :=
  rows.size = 0 ∨ (∃ row ∈ rows, row.size ≠ width rows) ∨ extent axis rows ≠ (n, m)

/-- Some line of the grid makes no axis. -/
def Rows.BadLine {α : Type} [Scalar α] (axis : Option Nat) (rows : Array (Array α)) : Prop :=
  ∃ i < (extent axis rows).1, ¬ ValidSamples (line axis rows i)

theorem Rows.misshapen_iff {α : Type} {axis : Option Nat} {rows : Array (Array α)} {n m : Nat} :
    Misshapen axis rows n m ↔ ¬ (Rectangular rows ∧ extent axis rows = (n, m)) := by
  unfold Misshapen
  constructor
  · rintro (hsize | ⟨row, hrow, hlength⟩ | hextent) ⟨hrect, hshape⟩
    · exact hrect.size_pos.ne' hsize
    · exact hlength (hrect.size_row row hrow)
    · exact hextent hshape
  · intro h
    by_contra hnot
    push Not at hnot
    exact h ⟨⟨Nat.pos_of_ne_zero hnot.1, hnot.2.1⟩, hnot.2.2⟩

/-- What is wrong with a table, by the name of the argument that is at fault. -/
inductive AtFault {α : Type} [Scalar α] (axis : Option Nat) :
    Readings α → Readings α → Option (Readings α) → String → Prop
  /-- A curve has the dimension 0 only. -/
  | axis_of_curve (x y : Readings α) {n : Nat} (hn : axis = some n) (h : n ≠ 0) :
    AtFault axis x y none "axis"
  /-- A grid has the dimensions 0 and 1 only. -/
  | axis_of_grid (x y z : Readings α) {n : Nat} (hn : axis = some n) (h : n ≠ 0 ∧ n ≠ 1) :
    AtFault axis x y (some z) "axis"
  /-- A curve needs no grid. -/
  | grid_of_curve (c : Coordinate) {x y : Readings α} (h : (c.pick x y).isGrid = true) :
    AtFault axis x y none c.name
  /-- The samples of a curve make no axis. -/
  | samples_of_curve {xs : Array α} (ys : Array α) (h : ¬ ValidSamples xs) :
    AtFault axis (.vector xs) (.vector ys) none "x"
  /-- A curve needs a value for each sample. -/
  | values_of_curve {xs ys : Array α} (h : ys.size ≠ xs.size) :
    AtFault axis (.vector xs) (.vector ys) none "y"
  /-- A vector beside a grid of values makes no axis. -/
  | samples_of_grid (c : Coordinate) {xs ys : Array α} (rows : Array (Array α))
      (h : ¬ ValidSamples (c.pick xs ys)) :
    AtFault axis (.vector xs) (.vector ys) (some (.grid rows)) c.name
  /-- A grid of values does not fit its vectors. -/
  | values_of_grid {xs ys : Array α} {rows : Array (Array α)}
      (h : Rows.Misshapen axis rows xs.size ys.size) :
    AtFault axis (.vector xs) (.vector ys) (some (.grid rows)) "z"
  /-- The outer samples of a family make no axis. -/
  | samples_of_family (c : Coordinate) {x y : Readings α} {os zs : Array α}
      {rows : Array (Array α)} (houter : c.pick x y = .vector os)
      (hgrid : c.other.pick x y = .grid rows) (h : ¬ ValidSamples os) :
    AtFault axis x y (some (.vector zs)) c.name
  /-- The lines of a family do not fit its vectors, or one of them makes no axis. -/
  | lines_of_family (c : Coordinate) {x y : Readings α} {os zs : Array α}
      {rows : Array (Array α)} (houter : c.pick x y = .vector os)
      (hgrid : c.other.pick x y = .grid rows)
      (h : Rows.Misshapen axis rows os.size zs.size ∨ Rows.BadLine axis rows) :
    AtFault axis x y (some (.vector zs)) c.other.name
  /-- One of three arguments is to be a grid. -/
  | no_grid (xs ys zs : Array α) :
    AtFault axis (.vector xs) (.vector ys) (some (.vector zs)) "z"
  /-- Only one of three arguments is to be a grid. -/
  | z_beside_grid {x y : Readings α} (rows : Array (Array α))
      (h : x.isGrid = true ∨ y.isGrid = true) :
    AtFault axis x y (some (.grid rows)) "z"
  /-- Of two grids it is the later one that is at fault. -/
  | y_beside_grid (rows rows' : Array (Array α)) (zs : Array α) :
    AtFault axis (.grid rows) (.grid rows') (some (.vector zs)) "y"

theorem AtFault.argument_mem {α : Type} [Scalar α] {axis : Option Nat} {x y : Readings α}
    {z : Option (Readings α)} {argument : String} (h : AtFault axis x y z argument) :
    argument ∈ ["axis", "x", "y", "z"] := by
  have hname : ∀ c : Coordinate, c.name ∈ ["axis", "x", "y", "z"] := by
    intro c
    cases c <;> decide
  cases h with
  | grid_of_curve c => exact hname c
  | samples_of_grid c => exact hname c
  | samples_of_family c => exact hname c
  | lines_of_family c => exact hname c.other
  | _ => decide

/-- The error says that an argument is at fault of which `P` is so. -/
def Error.Blames {α : Type} (P : String → Prop) (e : Error α) : Prop :=
  ∃ argument fault, e = .shape argument fault ∧ P argument

namespace Error.Blames

variable {α β : Type} {P Q : String → Prop}

theorem blame {argument : String} {x : Except (Fault α) β} (h : (¬ ∃ b, x = .ok b) → P argument) :
    FailsOnly (Blames P) (blame argument x) := by
  cases x with
  | ok b => exact .ok b
  | error fault => exact .error ⟨argument, fault, rfl, h nofun⟩

theorem refused {argument : String} (fault : Fault α) (h : P argument) :
    FailsOnly (Blames P) (.error (.shape argument fault) : Except (Error α) β) :=
  .error ⟨argument, fault, rfl, h⟩

theorem inRow {x : Except (Error α) β} (row : Nat) (h : FailsOnly (Blames P) x) :
    FailsOnly (Blames P) (x.mapError (Error.inRow row)) :=
  h.mapError fun _ ⟨argument, fault, he, hP⟩ => ⟨argument, .inRow row fault, congrArg _ he, hP⟩

theorem mono {x : Except (Error α) β} (h : FailsOnly (Blames P) x)
    (hPQ : ∀ argument, P argument → Q argument) : FailsOnly (Blames Q) x := by
  intro e he
  obtain ⟨argument, fault, hshape, hP⟩ := h e he
  exact ⟨argument, fault, hshape, hPQ argument hP⟩

end Error.Blames

open Error (Blames)

variable {α : Type} [Scalar α] [LawfulScalar α]

/-- A curve is refused for its samples or for the number of its values. -/
theorem Curve.ofSamples_blames (xs ys : Array α) (xName yName : String) :
    FailsOnly (Blames fun argument =>
        argument = xName ∧ ¬ ValidSamples xs ∨ argument = yName ∧ ys.size ≠ xs.size)
      (ofSamples xs ys xName yName) := by
  unfold ofSamples
  refine (Blames.blame fun h => Or.inl ⟨rfl, mt Axis.exists_ofSamples_iff.mpr h⟩).bind_of_ok
    fun axis haxis => ?_
  have hsize := Axis.size_of_ofSamples (Outcome.blame_eq_ok.mp haxis)
  split
  next => exact .ok _
  next hs => exact Blames.refused _ (Or.inr ⟨rfl, hsize ▸ hs⟩)

theorem ValueGrid.ofSamples_blames (xs ys : Array α) (written : Matrix α) (o : Orientation) :
    FailsOnly (Blames fun argument => (∃ c : Coordinate, argument = c.name ∧
        ¬ ValidSamples (c.pick xs ys)) ∨
          argument = "z" ∧ (written.orient o).shape ≠ (xs.size, ys.size))
      (ofSamples xs ys written o) := by
  unfold ofSamples
  refine (Blames.blame fun h => Or.inl ⟨.x, rfl, mt Axis.exists_ofSamples_iff.mpr h⟩).bind_of_ok
    fun xAxis hx => ?_
  refine (Blames.blame fun h => Or.inl ⟨.y, rfl, mt Axis.exists_ofSamples_iff.mpr h⟩).bind_of_ok
    fun yAxis hy => ?_
  have hxs := Axis.size_of_ofSamples (Outcome.blame_eq_ok.mp hx)
  have hys := Axis.size_of_ofSamples (Outcome.blame_eq_ok.mp hy)
  by_cases hfit : (written.orient o).rows = xAxis.samples.size ∧
      (written.orient o).columns = yAxis.samples.size
  · rw [dif_pos hfit]
    exact .ok _
  · rw [dif_neg hfit]
    refine Blames.refused _ (Or.inr ⟨rfl, fun hshape => hfit ?_⟩)
    rw [hxs, hys]
    exact Prod.mk.inj hshape

/-- A line as long as the values is refused for its samples only. -/
theorem CurveFamily.rowCurves_blames (rows : Matrix α) (values : Array α) (inner : Coordinate)
    (hcolumns : rows.columns = values.size) :
    FailsOnly (Blames fun argument => argument = inner.name ∧ ∃ i, ¬ ValidSamples (rows.row i))
      (rowCurves rows values inner) := by
  refine .mapM _ fun i => Blames.inRow i.val ?_
  refine Blames.mono (Curve.ofSamples_blames _ _ _ _) fun argument h => ?_
  rcases h with ⟨hname, hrow⟩ | ⟨-, hsize⟩
  · exact ⟨hname, i, hrow⟩
  · rw [Matrix.size_row] at hsize
    exact absurd hcolumns.symm hsize

/-- A family is refused for its outer samples, or for the lines of its grid. -/
theorem CurveFamily.ofSamples_blames (c : Coordinate) (os zs : Array α) (written : Matrix α)
    (o : Orientation) :
    FailsOnly (Blames fun argument => argument = c.name ∧ ¬ ValidSamples os ∨
        argument = c.other.name ∧ ((written.orient o).shape ≠ (os.size, zs.size) ∨
          ∃ i, ¬ ValidSamples ((written.orient o).row i)))
      (ofSamples c os written o zs) := by
  unfold ofSamples
  refine (Blames.blame fun h => Or.inl ⟨rfl, mt Axis.exists_ofSamples_iff.mpr h⟩).bind_of_ok
    fun outer houter => ?_
  have hsize := Axis.size_of_ofSamples (Outcome.blame_eq_ok.mp houter)
  by_cases hfit : (written.orient o).rows = outer.samples.size ∧
      (written.orient o).columns = zs.size
  · rw [dif_pos hfit]
    split
    next => exact .ok _
    next e hc =>
      obtain ⟨argument, fault, he, hname, hrow⟩ := rowCurves_blames _ zs c.other hfit.2 e hc
      exact .error ⟨argument, fault, he, Or.inr ⟨hname, Or.inr hrow⟩⟩
  · rw [dif_neg hfit]
    refine Blames.refused _ (Or.inr ⟨rfl, Or.inl fun hshape => hfit ?_⟩)
    rw [hsize]
    exact Prod.mk.inj hshape

namespace Chart

omit [Scalar α] [LawfulScalar α] in
/-- A dimension that a grid has not is blamed on the dimension named. -/
theorem orientationOf_blames (argument : Argument) (axis : Option Nat) :
    FailsOnly (Blames fun name => name = "axis" ∧ ∃ n, axis = some n ∧ n ≠ 0 ∧ n ≠ 1)
      (orientationOf (α := α) argument axis) := by
  unfold orientationOf Orientation.ofAxis?
  rcases axis with _ | _ | _ | n
  · exact .ok _
  · exact .ok _
  · exact .ok _
  · exact Blames.refused _ ⟨rfl, n + 2, rfl, by omega, by omega⟩

theorem curveOf_blames (x y : Readings α) (axis : Option Nat) :
    FailsOnly (Blames (AtFault axis x y none)) (curveOf x y axis) := by
  unfold curveOf
  refine FailsOnly.bind ?_ fun _ => ?_
  · unfold checkCurveAxis
    split
    next => exact .ok ()
    next => exact .ok ()
    next n hn => exact Blames.refused _ (.axis_of_curve x y rfl hn)
  cases x with
  | grid rows => exact Blames.refused _ (.grid_of_curve .x rfl)
  | vector xs =>
    cases y with
    | grid rows => exact Blames.refused _ (.grid_of_curve .y rfl)
    | vector ys =>
      refine Blames.mono (Curve.ofSamples_blames xs ys "x" "y") ?_
      rintro _ (⟨rfl, h⟩ | ⟨rfl, h⟩)
      · exact .samples_of_curve ys h
      · exact .values_of_curve h

theorem gridOf_blames (xs ys : Array α) (rows : Array (Array α)) (axis : Option Nat) :
    FailsOnly (Blames (AtFault axis (.vector xs) (.vector ys) (some (.grid rows))))
      (gridOf xs ys rows axis) := by
  unfold gridOf
  refine (Blames.mono (orientationOf_blames .z axis) ?_).bind_of_ok fun o ho => ?_
  · rintro _ ⟨rfl, n, hn, h⟩
    exact .axis_of_grid _ _ _ hn h
  have hto := (orientationOf_eq_ok_iff.mp ho).2
  refine (Blames.blame fun h => ?_).bind_of_ok fun written hw => ?_
  · rw [Matrix.exists_ofRows_iff] at h
    exact .values_of_grid (Rows.misshapen_iff.mpr fun hfit => h hfit.1)
  rw [Outcome.blame_eq_ok] at hw
  refine (Blames.mono (ValueGrid.ofSamples_blames xs ys written o) ?_).map _
  rintro _ (⟨c, rfl, h⟩ | ⟨rfl, h⟩)
  · exact .samples_of_grid c rows h
  · rw [Matrix.shape_orient hw hto] at h
    exact .values_of_grid (Rows.misshapen_iff.mpr fun hfit => h hfit.2)

theorem familyOf_blames (c : Coordinate) {x y : Readings α} {os : Array α}
    {rows : Array (Array α)} (houter : c.pick x y = .vector os)
    (hgrid : c.other.pick x y = .grid rows) (zs : Array α) (axis : Option Nat) :
    FailsOnly (Blames (AtFault axis x y (some (.vector zs)))) (familyOf c os rows zs axis) := by
  unfold familyOf
  refine (Blames.mono (orientationOf_blames _ axis) ?_).bind_of_ok fun o ho => ?_
  · rintro _ ⟨rfl, n, hn, h⟩
    exact .axis_of_grid _ _ _ hn h
  have hto := (orientationOf_eq_ok_iff.mp ho).2
  refine (Blames.blame fun h => ?_).bind_of_ok fun written hw => ?_
  · rw [Matrix.exists_ofRows_iff] at h
    exact .lines_of_family c houter hgrid (Or.inl (Rows.misshapen_iff.mpr fun hfit => h hfit.1))
  rw [Outcome.blame_eq_ok] at hw
  refine (Blames.mono (CurveFamily.ofSamples_blames c os zs written o) ?_).map _
  rintro _ (⟨rfl, h⟩ | ⟨rfl, h | ⟨i, hi⟩⟩)
  · exact .samples_of_family c houter hgrid h
  · rw [Matrix.shape_orient hw hto] at h
    exact .lines_of_family c houter hgrid (Or.inl (Rows.misshapen_iff.mpr fun hfit => h hfit.2))
  · refine .lines_of_family c houter hgrid (Or.inr ⟨i, ?_, ?_⟩)
    · rw [← Matrix.shape_orient hw hto]
      exact i.isLt
    · rwa [← Matrix.row_orient hw hto i]

/-- Whatever stops a chart from being made, an argument at fault is blamed. -/
theorem ofReadings_blames (x y : Readings α) (z : Option (Readings α)) (axis : Option Nat) :
    FailsOnly (Blames (AtFault axis x y z)) (ofReadings x y z axis) := by
  cases z with
  | none =>
    rw [ofReadings]
    exact (curveOf_blames x y axis).map _
  | some z =>
    cases x with
    | grid rows =>
      cases y with
      | grid rows' =>
        cases z with
        | grid rows'' => exact Blames.refused _ (.z_beside_grid _ (Or.inl rfl))
        | vector zs => exact Blames.refused _ (.y_beside_grid _ _ _)
      | vector ys =>
        cases z with
        | grid rows' => exact Blames.refused _ (.z_beside_grid _ (Or.inl rfl))
        | vector zs => exact familyOf_blames .y rfl rfl zs axis
    | vector xs =>
      cases y with
      | grid rows =>
        cases z with
        | grid rows' => exact Blames.refused _ (.z_beside_grid _ (Or.inr rfl))
        | vector zs => exact familyOf_blames .x rfl rfl zs axis
      | vector ys =>
        cases z with
        | grid rows => exact gridOf_blames xs ys rows axis
        | vector zs => exact Blames.refused _ (.no_grid xs ys zs)

/-- Without `z` only a curve is tabulated. -/
theorem tabulatesCurve_of_accepted {x y : Readings α} {axis : Option Nat}
    (h : ∃ chart, ofReadings x y none axis = .ok chart) : TabulatesCurve x y axis := by
  obtain ⟨chart, h⟩ := h
  obtain ⟨c, hc, -⟩ := ofReadings_curve_eq_ok_iff.mp h
  exact exists_curveOf_iff.mp ⟨c, hc⟩

/-- Beside a grid for one coordinate and a vector for `z` only a family is tabulated. -/
theorem tabulatesFamily_of_accepted (c : Coordinate) {x y : Readings α} {rows : Array (Array α)}
    {zs : Array α} {axis : Option Nat} (hgrid : c.other.pick x y = .grid rows)
    (h : ∃ chart, ofReadings x y (some (.vector zs)) axis = .ok chart) :
    TabulatesFamily (c.pick x y) (c.other.pick x y) (.vector zs) axis := by
  rcases exists_surface_iff.mp h with ⟨_, _, _, _, _, hz, _⟩ | hfamily | hfamily
  · cases hz
  · cases c with
    | x => exact hfamily
    | y =>
      obtain ⟨_, _, _, hx, _⟩ := hfamily
      cases hx.symm.trans hgrid
  · cases c with
    | x =>
      obtain ⟨_, _, _, hy, _⟩ := hfamily
      cases hy.symm.trans hgrid
    | y => exact hfamily

/-- Beside a grid for `z` only a grid of values is tabulated. -/
theorem tabulatesGrid_of_accepted {x y : Readings α} {rows : Array (Array α)} {axis : Option Nat}
    (h : ∃ chart, ofReadings x y (some (.grid rows)) axis = .ok chart) :
    TabulatesGrid x y (.grid rows) axis := by
  rcases exists_surface_iff.mp h with hgrid | ⟨_, _, _, _, _, hz, _⟩ | ⟨_, _, _, _, _, hz, _⟩
  · exact hgrid
  · cases hz
  · cases hz

/-- A grid that is used has no dimensions but 0 and 1. -/
theorem dimension_of_accepted {x y z : Readings α} {axis : Option Nat}
    (h : ∃ chart, ofReadings x y (some z) axis = .ok chart) :
    axis = none ∨ axis = some 0 ∨ axis = some 1 := by
  rcases exists_surface_iff.mp h with ⟨_, _, _, _, _, _, _, _, hspans⟩ |
    ⟨_, _, _, _, _, _, _, hspans, _⟩ | ⟨_, _, _, _, _, _, _, hspans, _⟩
  · exact hspans.dimension
  · exact hspans.dimension
  · exact hspans.dimension

/-- A table with an argument at fault makes no chart. -/
theorem not_accepted_of_atFault {x y : Readings α} {z : Option (Readings α)} {axis : Option Nat}
    {argument : String} (h : AtFault axis x y z argument) :
    ¬ ∃ chart, ofReadings x y z axis = .ok chart := by
  intro haccepted
  cases h with
  | axis_of_curve _ _ hn h =>
    obtain ⟨hdim, -⟩ := tabulatesCurve_of_accepted haccepted
    rw [hn] at hdim
    simp [h] at hdim
  | axis_of_grid _ _ z hn h =>
    have hdim := dimension_of_accepted haccepted
    rw [hn] at hdim
    simp [h] at hdim
  | grid_of_curve c h =>
    obtain ⟨-, xs, ys, rfl, rfl, -⟩ := tabulatesCurve_of_accepted haccepted
    cases c <;> cases h
  | samples_of_curve ys h =>
    obtain ⟨-, xs, _, hx, -, hvalid, -⟩ := tabulatesCurve_of_accepted haccepted
    obtain rfl := Readings.vector.inj hx
    exact h hvalid
  | values_of_curve h =>
    obtain ⟨-, xs, ys, hx, hy, -, hsize⟩ := tabulatesCurve_of_accepted haccepted
    obtain rfl := Readings.vector.inj hx
    obtain rfl := Readings.vector.inj hy
    exact h hsize.symm
  | samples_of_grid c rows h =>
    obtain ⟨xs, ys, _, hx, hy, -, hxs, hys, -⟩ := tabulatesGrid_of_accepted haccepted
    obtain rfl := Readings.vector.inj hx
    obtain rfl := Readings.vector.inj hy
    cases c with
    | x => exact h hxs
    | y => exact h hys
  | values_of_grid h =>
    obtain ⟨xs, ys, rows, hx, hy, hz, -, -, hspans⟩ := tabulatesGrid_of_accepted haccepted
    obtain rfl := Readings.vector.inj hx
    obtain rfl := Readings.vector.inj hy
    obtain rfl := Readings.grid.inj hz
    exact Rows.misshapen_iff.mp h ⟨hspans.rectangular, hspans.extent⟩
  | samples_of_family c houter hgrid h =>
    obtain ⟨os, _, _, hos, -, -, hvalid, -⟩ := tabulatesFamily_of_accepted c hgrid haccepted
    obtain rfl := Readings.vector.inj (houter.symm.trans hos)
    exact h hvalid
  | lines_of_family c houter hgrid h =>
    obtain ⟨os, rows, zs, hos, hrows, hzs, -, hspans, hlines⟩ :=
      tabulatesFamily_of_accepted c hgrid haccepted
    obtain rfl := Readings.vector.inj (houter.symm.trans hos)
    obtain rfl := Readings.grid.inj (hgrid.symm.trans hrows)
    obtain rfl := Readings.vector.inj hzs
    rcases h with hshape | ⟨i, hi, hline⟩
    · exact Rows.misshapen_iff.mp hshape ⟨hspans.rectangular, hspans.extent⟩
    · rw [hspans.extent] at hi
      exact hline (hlines i hi)
  | no_grid xs ys zs =>
    rcases exists_surface_iff.mp haccepted with ⟨_, _, _, _, _, hz, _⟩ | ⟨_, _, _, _, hy, _⟩ |
      ⟨_, _, _, _, hx, _⟩
    · cases hz
    · cases hy
    · cases hx
  | z_beside_grid rows h =>
    obtain ⟨xs, ys, _, rfl, rfl, -⟩ := tabulatesGrid_of_accepted haccepted
    rcases h with h | h
    · cases h
    · cases h
  | y_beside_grid rows rows' zs =>
    obtain ⟨_, _, _, hx, -⟩ := tabulatesFamily_of_accepted .x rfl haccepted
    cases hx

end Chart

namespace Interpolant

omit [LawfulScalar α] in
theorem build_eq_error_iff {x y : Readings α} {z : Option (Readings α)} {options : Options α}
    {e : Error α} :
    build x y z options = .error e ↔ Chart.ofReadings x y z options.axis = .error e := by
  unfold build
  cases Chart.ofReadings x y z options.axis with
  | error e' =>
    exact ⟨fun h => congrArg _ (Except.error.inj h), fun h => congrArg _ (Except.error.inj h)⟩
  | ok chart => exact ⟨fun h => (by cases h), fun h => (by cases h)⟩

/-- There is no interpolant exactly if some argument is at fault, and then one that is at fault is
blamed. -/
theorem build_blames_at_fault (x y : Readings α) (z : Option (Readings α)) (options : Options α) :
    (∀ e, build x y z options = .error e → ∃ argument ∈ ["axis", "x", "y", "z"], ∃ fault,
      e = .shape argument fault ∧ AtFault options.axis x y z argument) ∧
    ((∃ argument, AtFault options.axis x y z argument) → ∃ e, build x y z options = .error e) := by
  constructor
  · intro e he
    obtain ⟨argument, fault, hshape, hfault⟩ :=
      Chart.ofReadings_blames x y z options.axis e (build_eq_error_iff.mp he)
    exact ⟨argument, hfault.argument_mem, fault, hshape, hfault⟩
  · rintro ⟨argument, h⟩
    have hrefused := Chart.not_accepted_of_atFault h
    cases hchart : Chart.ofReadings x y z options.axis with
    | error e => exact ⟨e, build_eq_error_iff.mpr hchart⟩
    | ok chart => exact absurd ⟨chart, hchart⟩ hrefused

/-- A family with two equal outer samples and a short line. Both arguments are at fault, and it is
the grid that is blamed. -/
theorem build_blames_the_grid_first :
    let x : Readings Float := .grid #[#[0, 1], #[1]]
    let y : Readings Float := .vector #[0, 0]
    let z : Option (Readings Float) := some (.vector #[0, 1])
    AtFault none x y z "y" ∧ (∃ e, build x y z ⟨none, .raise⟩ = .error e) ∧
      build x y z ⟨none, .raise⟩ = .error (.shape "x" (.raggedRow 2 1 1)) ∧
        AtFault none x y z "x" := by
  intro x y z
  obtain ⟨hblamed, hrefused⟩ := build_blames_at_fault x y z ⟨none, .raise⟩
  have hy : AtFault none x y z "y" := .samples_of_family .y rfl rfl (by decide +kernel)
  have hbuild : build x y z ⟨none, .raise⟩ = .error (.shape "x" (.raggedRow 2 1 1)) := rfl
  obtain ⟨argument, -, fault, he, hfault⟩ := hblamed _ hbuild
  obtain ⟨rfl, -⟩ := Error.shape.inj he
  exact ⟨hy, hrefused ⟨"y", hy⟩, hbuild, hfault⟩

end Interpolant

end DesignChart
