import Mathlib
import DesignChart.Proofs.Dictionary.Build
import DesignChart.Proofs.Interpolant.Families
import DesignChart.Proofs.Raw.Evaluation

/-!
# What keeps charts from breaking down

A chart without guarantees is well formed if its axes increase, are finite and have two samples at
least, and if there are as many values, or curves, as samples. That is as much as the proofs that a
chart carries say, so a well formed chart is read at every point without breaking down. Only such
charts are built, and they hold what the arguments supply.
-/

namespace DesignChart

open Run (ended)

section WellFormed

variable {α : Type} [Scalar α]

structure RawAxis.WellFormed (axis : RawAxis α) : Prop where
  two_le_size : 2 ≤ axis.samples.size
  isFinite : ∀ v ∈ axis.samples, Scalar.isFinite v = true
  rises : Rises axis.samples

structure RawCurve.WellFormed (curve : RawCurve α) : Prop where
  axis : curve.axis.WellFormed
  size_values : curve.values.size = curve.axis.samples.size

inductive RawSurface.WellFormed : RawSurface α → Prop
  | grid {xAxis yAxis : RawAxis α} {values : Matrix α} (x : xAxis.WellFormed) (y : yAxis.WellFormed)
      (shape : values.shape = (xAxis.samples.size, yAxis.samples.size)) :
      WellFormed (.grid xAxis yAxis values)
  | family {c : Coordinate} {outer : RawAxis α} {curves : Array (RawCurve α)}
      (axis : outer.WellFormed) (size_curves : curves.size = outer.samples.size)
      (curve : ∀ curve ∈ curves, curve.WellFormed) : WellFormed (.family c outer curves)

def RawChart.WellFormed : RawChart α → Prop
  | curve c => c.WellFormed
  | surface s _ => s.WellFormed

/-- The axis of well formed samples. -/
def RawAxis.WellFormed.axis {raw : RawAxis α} (h : raw.WellFormed) : Axis α :=
  ⟨raw.samples, raw.reversed, h.two_le_size⟩

/-- The curve of well formed samples and values. -/
def RawCurve.WellFormed.curve {raw : RawCurve α} (h : raw.WellFormed) : Curve α :=
  ⟨h.axis.axis, raw.values, h.size_values⟩

theorem Axis.wellFormed_raw_iff {axis : Axis α} : axis.raw.WellFormed ↔ axis.Increasing :=
  ⟨fun h => ⟨h.isFinite, h.rises⟩, fun h => ⟨axis.two_le_size, h.isFinite, h.rises⟩⟩

theorem Curve.wellFormed_raw_iff {curve : Curve α} :
    curve.raw.WellFormed ↔ curve.axis.Increasing :=
  ⟨fun h => Axis.wellFormed_raw_iff.mp h.axis,
    fun h => ⟨Axis.wellFormed_raw_iff.mpr h, curve.size_values⟩⟩

theorem ValueGrid.wellFormed_raw_iff {grid : ValueGrid α} :
    (Surface.grid grid).raw.WellFormed ↔ grid.xAxis.Increasing ∧ grid.yAxis.Increasing := by
  constructor
  · intro h
    cases h with
    | grid hx hy _ => exact ⟨Axis.wellFormed_raw_iff.mp hx, Axis.wellFormed_raw_iff.mp hy⟩
  · rintro ⟨hx, hy⟩
    exact .grid (Axis.wellFormed_raw_iff.mpr hx) (Axis.wellFormed_raw_iff.mpr hy)
      (Prod.ext grid.rows_values grid.columns_values)

theorem CurveFamily.wellFormed_raw_iff {family : CurveFamily α} :
    (Surface.family family).raw.WellFormed ↔ family.Increasing := by
  constructor
  · intro h
    cases h with
    | family houter _ hcurve =>
      have hall : ∀ curve ∈ family.curves, curve.axis.Increasing := fun curve hm =>
        Curve.wellFormed_raw_iff.mp (hcurve _ (Array.mem_map_of_mem hm))
      exact ⟨Axis.wellFormed_raw_iff.mp houter, forall_curves_iff.mp hall⟩
  · intro h
    have hall : ∀ curve ∈ family.curves, curve.axis.Increasing := forall_curves_iff.mpr h.curve
    have hsize : (family.curves.map Curve.raw).size = family.outer.raw.samples.size :=
      Array.size_map.trans family.size_curves
    refine .family (Axis.wellFormed_raw_iff.mpr h.outer) hsize fun raw hm => ?_
    obtain ⟨curve, hcurve, rfl⟩ := Array.mem_map.mp hm
    exact Curve.wellFormed_raw_iff.mpr (hall curve hcurve)

/-- What the chart knows of itself and the increase of its axes make up the invariant. -/
theorem Chart.wellFormed_raw_iff {chart : Chart α} : chart.raw.WellFormed ↔ chart.Increasing := by
  cases chart with
  | curve c => exact c.wellFormed_raw_iff
  | surface s source =>
    cases s with
    | grid g => exact g.wellFormed_raw_iff
    | family f => exact f.wellFormed_raw_iff

/-- A well formed chart is one whose guarantees have been forgotten. -/
theorem RawChart.WellFormed.exists_chart {raw : RawChart α} (h : raw.WellFormed) :
    ∃ chart : Chart α, chart.raw = raw := by
  cases raw with
  | curve c =>
    have hc : c.WellFormed := h
    exact ⟨.curve hc.curve, rfl⟩
  | surface s source =>
    have hs : s.WellFormed := h
    cases hs with
    | grid hx hy hshape =>
      obtain ⟨hrows, hcolumns⟩ := Prod.mk.inj hshape
      exact ⟨.surface (.grid ⟨hx.axis, hy.axis, _, hrows, hcolumns⟩) source, rfl⟩
    | @family c outer curves houter hsize hcurve =>
      let kept := curves.pmap (fun _ h => RawCurve.WellFormed.curve h) hcurve
      have hkept : kept.map Curve.raw = curves := by
        rw [Array.map_pmap]
        exact Array.pmap_eq_self.mpr fun _ _ => rfl
      have hsize : kept.size = houter.axis.samples.size := Array.size_pmap.trans hsize
      refine ⟨.surface (.family ⟨c, houter.axis, kept, hsize⟩) source, ?_⟩
      exact congrArg (fun curves => RawChart.surface (.family c outer curves) source) hkept

/-- A well formed chart is read at every point and under every policy. -/
theorem RawInterpolant.exists_eval_eq [LawfulScalar α] {f : RawInterpolant α}
    (h : f.chart.WellFormed) (point : List α) : ∃ outcome, f.eval point = ended outcome := by
  obtain ⟨raw, bounds⟩ := f
  obtain ⟨chart, rfl⟩ := h.exists_chart
  exact ⟨_, Interpolant.eval_raw (f := ⟨chart, bounds⟩) (Chart.wellFormed_raw_iff.mp h) point⟩

end WellFormed

section Holds

variable {α : Type}

/-- The points `(xs[i], ys[i])` in the order of the axis. -/
structure RawCurve.Through (curve : RawCurve α) (xs ys : Array α) : Prop where
  samples_eq : curve.axis.samples = curve.axis.reorder xs
  values_eq : curve.values = curve.axis.reorder ys

/-- The chart holds what the arguments supply, each vector in the order of the axis it belongs to.
The curves of a family are supplied in the order of the outer samples, and each of them goes through
a line of the grid and the values that all have in common. -/
inductive RawChart.Holds (axis : Option Nat) :
    Readings α → Readings α → Option (Readings α) → RawChart α → Prop
  | curve {xs ys : Array α} {c : RawCurve α} (points : c.Through xs ys) :
      Holds axis (.vector xs) (.vector ys) none (.curve c)
  | grid {xs ys : Array α} {rows : Array (Array α)} {xAxis yAxis : RawAxis α} {written : Matrix α}
      {o : Orientation} (x : xAxis.samples = xAxis.reorder xs) (y : yAxis.samples = yAxis.reorder ys)
      (rows_eq : Matrix.ofRows rows = .ok written) (orientation : o = .transposed ↔ axis = some 1) :
      Holds axis (.vector xs) (.vector ys) (some (.grid rows))
        (.surface (.grid xAxis yAxis
          ((written.orient o).turn xAxis.reversed yAxis.reversed)) ⟨.z, o⟩)
  | family {x y : Readings α} {c : Coordinate} {os zs : Array α} {rows : Array (Array α)}
      {outer : RawAxis α} {curves : Array (RawCurve α)} {o : Orientation}
      (vector : c.pick x y = .vector os) (lines : c.other.pick x y = .grid rows)
      (outer_eq : outer.samples = outer.reorder os)
      (points : ∀ (i : Nat) (curve : RawCurve α), (outer.reorder curves)[i]? = some curve →
        curve.Through (Rows.line axis rows i) zs) :
      Holds axis x y (some (.vector zs)) (.surface (.family c outer curves) ⟨c.other.argument, o⟩)

variable [Scalar α] [LawfulScalar α]

theorem Axis.samples_raw {samples : Array α} {axis : Axis α} (h : ofSamples samples = .ok axis) :
    axis.raw.samples = axis.raw.reorder samples :=
  (reorder_of_ofSamples h).symm

theorem Curve.through_raw {xs ys : Array α} {xName yName : String} {curve : Curve α}
    (h : ofSamples xs ys xName yName = .ok curve) : curve.raw.Through xs ys := by
  obtain ⟨haxis, -, hvalues⟩ := ofSamples_eq_ok_iff.mp h
  exact ⟨Axis.samples_raw haxis, hvalues⟩

namespace Chart

variable {x y : Readings α} {z : Option (Readings α)} {axis : Option Nat} {chart : Chart α}

theorem holds_of_gridOf {xs ys : Array α} {rows : Array (Array α)}
    (h : gridOf xs ys rows axis = .ok chart) :
    chart.raw.Holds axis (.vector xs) (.vector ys) (some (.grid rows)) := by
  obtain ⟨o, written, grid, ho, hw, hs, rfl⟩ := gridOf_eq_ok_iff.mp h
  obtain ⟨xAxis, yAxis, values, hrows, hcolumns⟩ := grid
  obtain ⟨hx, hy, -, hkept⟩ := ValueGrid.ofSamples_eq_ok_iff.mp hs
  dsimp only at hx hy hkept
  subst hkept
  exact .grid (Axis.samples_raw hx) (Axis.samples_raw hy) hw (orientationOf_eq_ok_iff.mp ho).2

theorem holds_of_familyOf {c : Coordinate} {os zs : Array α} {rows : Array (Array α)}
    (hos : c.pick x y = .vector os) (hrows : c.other.pick x y = .grid rows)
    (h : familyOf c os rows zs axis = .ok chart) :
    chart.raw.Holds axis x y (some (.vector zs)) := by
  obtain ⟨family, o, rfl, rfl, houter, hcurve⟩ := exists_lines_of_familyOf h
  refine .family hos hrows (Axis.samples_raw houter) fun i curve hi => ?_
  have hsize : (family.curves.map Curve.raw).size = family.outer.samples.size :=
    Array.size_map.trans family.size_curves
  have hlt : i < family.outer.samples.size := by
    obtain ⟨hlt, -⟩ := Array.getElem?_eq_some_iff.mp hi
    have hreorder := family.outer.size_reorder (family.curves.map Curve.raw)
    exact (hreorder.trans hsize) ▸ hlt
  -- the curve supplied in place `i` is kept in the place of outer sample `i`
  have hplace := Axis.getElem?_reorder_place hsize (family.outer.place ⟨i, hlt⟩)
  rw [Axis.place_place, family.getElem?_raw] at hplace
  obtain rfl := Option.some.inj (hplace.symm.trans hi)
  exact Curve.through_raw (hcurve ⟨i, hlt⟩)

theorem holds_of_ofReadings (h : ofReadings x y z axis = .ok chart) : chart.raw.Holds axis x y z := by
  cases z with
  | none =>
    obtain ⟨c, hc, rfl⟩ := ofReadings_curve_eq_ok_iff.mp h
    obtain ⟨-, xs, ys, rfl, rfl, hs⟩ := curveOf_eq_ok_iff.mp hc
    exact .curve (Curve.through_raw hs)
  | some z =>
    rcases ofReadings_surface_eq_ok_iff.mp h with
      ⟨xs, ys, rows, rfl, rfl, rfl, hg⟩ | ⟨xs, rows, zs, rfl, rfl, rfl, hf⟩ |
        ⟨ys, rows, zs, rfl, rfl, rfl, hf⟩
    · exact holds_of_gridOf hg
    · exact holds_of_familyOf (c := .x) rfl rfl hf
    · exact holds_of_familyOf (c := .y) rfl rfl hf

end Chart

/-- A chart of the arguments that keeps the invariant. -/
structure RawChart.Represents (axis : Option Nat) (x y : Readings α) (z : Option (Readings α))
    (chart : RawChart α) : Prop where
  wellFormed : chart.WellFormed
  holds : chart.Holds axis x y z

theorem Chart.represents_of_ofReadings {x y : Readings α} {z : Option (Readings α)}
    {axis : Option Nat} {chart : Chart α} (h : ofReadings x y z axis = .ok chart) :
    chart.raw.Represents axis x y z :=
  ⟨wellFormed_raw_iff.mpr (increasing_of_ofReadings h), holds_of_ofReadings h⟩

end Holds

namespace Dictionary

variable {α : Type} [Scalar α] {x y : Input (Readings α)} {z : Option (Input (Readings α))}
  {options : Options α}

/-- The chart of each key represents what the inputs give for it. -/
theorem represents_of_get? [LawfulScalar α] {dict : Dictionary α} {key : Key} {f : Interpolant α}
    (h : build x y z options = .ok dict) (hget : dict.get? key = some f) :
    ∃ a b c, x.get? key = some a ∧ y.get? key = some b ∧ z.mapM (·.get? key) = some c ∧
      f.chart.raw.Represents options.axis a b c := by
  have halone := alone_of_get? h hget
  obtain ⟨a, ha, halone⟩ := Option.bind_eq_some_iff.mp halone
  obtain ⟨b, hb, halone⟩ := Option.bind_eq_some_iff.mp halone
  obtain ⟨c, hc, halone⟩ := Option.bind_eq_some_iff.mp halone
  have hbuild := (Interpolant.build_eq_ok_iff.mp (Option.some.inj halone)).1
  exact ⟨a, b, c, ha, hb, hc, Chart.represents_of_ofReadings hbuild⟩

/-- The entries of a dictionary are built without breaking down. -/
theorem exists_entries [LawfulScalar α] (x y : Input (Readings α))
    (z : Option (Input (Readings α))) (options : Options α) :
    ∃ outcome keyed,
      RawInterpolant.buildEntries x y z options =
          ended (List.map (Prod.map id Interpolant.raw) <$> outcome) ∧
        build x y z options = (fun entries => ⟨.ofList entries, keyed⟩) <$> outcome := by
  have hentries := RawInterpolant.buildEntries_eq x y z options
  cases hkeys : commonKeys (α := α) ((x :: y :: z.toList).filterMap Input.keys?) with
  | error e =>
    rw [hkeys] at hentries
    refine ⟨.error e, false, hentries, ?_⟩
    unfold build
    rw [hkeys]
    rfl
  | ok keys =>
    rw [hkeys] at hentries
    refine ⟨_, keys.isSome, hentries, ?_⟩
    rw [build_eq_of_commonKeys options hkeys]
    cases (keys.getD [.unit]).mapM (buildEntry x y z options) <;> rfl

end Dictionary

/-- No chart of doubles breaks down, neither as it is built nor as it is read: every table and every
dictionary of tables makes the charts that it makes with all guarantees, or fails as it does there;
these charts represent what the arguments supply; and every chart of which that much is known is
read at any list of coordinates, under any policy. -/
theorem RawInterpolant.no_breakdown (options : Options Float) :
    (∀ (x y : Readings Float) (z : Option (Readings Float)),
      RawChart.ofReadings x y z options.axis =
          ended (Chart.raw <$> Chart.ofReadings x y z options.axis) ∧
        build x y z options = ended (Interpolant.raw <$> Interpolant.build x y z options) ∧
        (∀ chart, Chart.ofReadings x y z options.axis = .ok chart →
          chart.raw.Represents options.axis x y z) ∧
        ∀ f, Interpolant.build x y z options = .ok f → f.chart.raw.Represents options.axis x y z) ∧
      (∀ (x y : Input (Readings Float)) (z : Option (Input (Readings Float))),
        (∃ outcome keyed,
          buildEntries x y z options = ended (List.map (Prod.map id Interpolant.raw) <$> outcome) ∧
            Dictionary.build x y z options = (fun entries => ⟨.ofList entries, keyed⟩) <$> outcome) ∧
        ∀ dict key f, Dictionary.build x y z options = .ok dict → dict.get? key = some f →
          ∃ a b c, x.get? key = some a ∧ y.get? key = some b ∧ z.mapM (·.get? key) = some c ∧
            f.chart.raw.Represents options.axis a b c) ∧
      (∀ f : RawInterpolant Float, f.chart.WellFormed → ∀ point,
        ∃ outcome, f.eval point = ended outcome) ∧
      ∀ f : Interpolant Float, f.chart.raw.WellFormed → ∀ point,
        f.raw.eval point = ended (f.eval point) := by
  refine ⟨fun x y z => ⟨RawChart.ofReadings_eq x y z options.axis, build_eq x y z options, ?_, ?_⟩,
    fun x y z => ⟨Dictionary.exists_entries x y z options, ?_⟩, ?_, ?_⟩
  · intro chart h
    exact Chart.represents_of_ofReadings h
  · intro f h
    exact Chart.represents_of_ofReadings (Interpolant.build_eq_ok_iff.mp h).1
  · intro dict key f h hget
    exact Dictionary.represents_of_get? h hget
  · intro f h point
    exact exists_eval_eq h point
  · intro f h point
    exact Interpolant.eval_raw (Chart.wellFormed_raw_iff.mp h) point

/-- A family whose outer samples decrease, as the samples of its second curve do. -/
theorem RawInterpolant.no_breakdown_of_a_family :
    (∃ f : Interpolant Float,
      build (.vector #[1, 0]) (.grid #[#[0, 1], #[1, 0]]) (some (.vector #[5, 7])) ⟨none, .clamp⟩ =
          ended (.ok f.raw) ∧
        f.raw.chart.Represents none (.vector #[1, 0]) (.grid #[#[0, 1], #[1, 0]])
          (some (.vector #[5, 7])) ∧
        ∀ point, f.raw.eval point = ended (f.eval point) ∧
          ∃ outcome, f.raw.eval point = ended outcome) ∧
      ∃ (dict : Dictionary Float) (f : Interpolant Float),
        Dictionary.build (.shared (.vector #[1, 0])) (.shared (.grid #[#[0, 1], #[1, 0]]))
            (some (.shared (.vector #[5, 7]))) ⟨none, .clamp⟩ = .ok dict ∧
          dict.get? .unit = some f ∧ f.chart.raw.WellFormed := by
  obtain ⟨hbuild, hdict, heval, hsame⟩ := no_breakdown ⟨none, .clamp⟩
  constructor
  · obtain ⟨-, hraw, -, hsound⟩ :=
      hbuild (.vector #[1, 0]) (.grid #[#[0, 1], #[1, 0]]) (some (.vector #[5, 7]))
    obtain ⟨f, hf⟩ : ∃ f, Interpolant.build (.vector #[(1 : Float), 0])
        (.grid #[#[0, 1], #[1, 0]]) (some (.vector #[5, 7])) ⟨none, .clamp⟩ = .ok f :=
      Outcome.exists_of_isOk (by decide +kernel)
    rw [hf] at hraw
    have hwell := (hsound f hf).wellFormed
    exact ⟨f, hraw, hsound f hf, fun point => ⟨hsame f hwell point, heval f.raw hwell point⟩⟩
  · obtain ⟨-, hsound⟩ := hdict (.shared (.vector #[1, 0])) (.shared (.grid #[#[0, 1], #[1, 0]]))
      (some (.shared (.vector #[5, 7])))
    obtain ⟨f, hf⟩ : ∃ f, (Dictionary.build (.shared (.vector #[(1 : Float), 0]))
        (.shared (.grid #[#[0, 1], #[1, 0]])) (some (.shared (.vector #[5, 7])))
        ⟨none, .clamp⟩ >>= (·.get .unit)) = .ok f :=
      Outcome.exists_of_isOk (by decide +kernel)
    obtain ⟨dict, hbuilt, hget⟩ := Outcome.bind_eq_ok.mp hf
    rw [Dictionary.get_eq_ok_iff] at hget
    obtain ⟨a, b, c, -, -, -, hrep⟩ := hsound dict .unit f hbuilt hget
    exact ⟨dict, f, hbuilt, hget, hrep.wellFormed⟩

end DesignChart
