import Mathlib
import DesignChart.Proofs.Chart.Direction
import DesignChart.Proofs.Interpolant.Families

/-!
# Tables listed in the other direction

Whether a table lists a variable upwards or downwards makes no difference to its answers. The other
listing is accepted whenever the first one is, and then every point is given the same value or the
same error, under every policy and to the last bit: no number takes part in another computation.
-/

namespace DesignChart

variable {α : Type} [Scalar α]

theorem Curve.evalWithin_turn (curve : Curve α) (a : Bool) (policy : RangePolicy α)
    (coordinate : Coordinate) (v : α) :
    (curve.turn a).evalWithin policy coordinate v = curve.evalWithin policy coordinate v := by
  have heval : (curve.turn a).eval = curve.eval := funext (curve.eval_turn a)
  have hrange : (curve.turn a).range = curve.range := rfl
  unfold evalWithin
  rw [heval, hrange]

theorem ValueGrid.evalWithin_turn (grid : ValueGrid α) (a b : Bool) (policy : RangePolicy α)
    (x y : α) : (grid.turn a b).evalWithin policy x y = grid.evalWithin policy x y := by
  have hx : (grid.turn a b).xAxis.range = grid.xAxis.range := rfl
  have hy : (grid.turn a b).yAxis.range = grid.yAxis.range := rfl
  unfold evalWithin
  simp only [eval_turn, hx, hy]

theorem CurveFamily.readWithin_turn (family : CurveFamily α) (a b : Bool) (policy : RangePolicy α)
    (cell : Axis.Cell family.outer) (t v : α) :
    (family.turn a b).readWithin policy (cell.turn a) t v = family.readWithin policy cell t v := by
  have hvariable : (family.turn a b).outerVariable = family.outerVariable := rfl
  have hcurve : ∀ i : Fin family.outer.samples.size,
      ((family.turn a b).curveAt i).evalWithin policy family.outerVariable.other v =
        (family.curveAt i).evalWithin policy family.outerVariable.other v := by
    intro i
    rw [curveAt_turn, Curve.evalWithin_turn]
  refine readWithin_congr hvariable ?_ ?_ t
  · exact hcurve cell.low
  · exact hcurve cell.high

theorem CurveFamily.evalWithin_turn (family : CurveFamily α) (a b : Bool) (policy : RangePolicy α)
    (w v : α) : (family.turn a b).evalWithin policy w v = family.evalWithin policy w v := by
  rw [evalWithin_eq, evalWithin_eq]
  refine congrArg _ (funext fun u => ?_)
  have hcell : (family.turn a b).outer.locate u = (family.outer.locate u).turn a :=
    family.outer.locate_turn a u
  rw [hcell]
  exact family.readWithin_turn a b policy _ _ v

theorem Surface.evalWithin_turn (surface : Surface α) (a b : Bool) (policy : RangePolicy α)
    (x y : α) : (surface.turn a b).evalWithin policy x y = surface.evalWithin policy x y := by
  cases surface with
  | grid g => exact g.evalWithin_turn a b policy x y
  | family f =>
    have hvariable : (f.turn a b).outerVariable = f.outerVariable := rfl
    change evalWithin (.family (f.turn a b)) policy x y = _
    simp only [evalWithin, hvariable, CurveFamily.evalWithin_turn]

namespace Interpolant

/-- Curves that answer alike are interpolated alike. -/
theorem eval_congr_curve {curve other : Curve α} {policy : RangePolicy α}
    (h : ∀ v, other.evalWithin policy .x v = curve.evalWithin policy .x v) (point : List α) :
    eval ⟨.curve other, policy⟩ point = eval ⟨.curve curve, policy⟩ point := by
  rcases point with _ | ⟨x, _ | ⟨y, _ | ⟨z, rest⟩⟩⟩
  · rfl
  · exact congrArg (Admission.value <$> ·) (h x)
  · rfl
  · rfl

theorem eval_congr_surface {surface other : Surface α} {source source' : GridSource}
    {policy : RangePolicy α}
    (h : ∀ x y, other.evalWithin policy x y = surface.evalWithin policy x y) (point : List α) :
    eval ⟨.surface other source', policy⟩ point = eval ⟨.surface surface source, policy⟩ point := by
  rcases point with _ | ⟨x, _ | ⟨y, _ | ⟨z, rest⟩⟩⟩
  · rfl
  · rfl
  · exact congrArg (Admission.value <$> ·) (h x y)
  · rfl

/-- The interpolant of the same table with its variables listed in the other direction. -/
def turn (f : Interpolant α) (a b : Bool) : Interpolant α := { f with chart := f.chart.turn a b }

theorem eval_turn (f : Interpolant α) (a b : Bool) (point : List α) :
    (f.turn a b).eval point = f.eval point := by
  obtain ⟨_ | _, policy⟩ := f
  · exact eval_congr_curve (fun v => Curve.evalWithin_turn _ a policy .x v) point
  · exact eval_congr_surface (fun x y => Surface.evalWithin_turn _ a b policy x y) point

/-- Two tables that are both refused, or both accepted and then cover the same ranges and give the
same value or error at every point. -/
structure SameAnswers (built other : Except (Error α) (Interpolant α)) : Prop where
  accepted : (∃ f, built = .ok f) ↔ ∃ g, other = .ok g
  domain : ∀ f g, built = .ok f → other = .ok g → f.chart.domain = g.chart.domain
  eval : ∀ f g, built = .ok f → other = .ok g → ∀ point, f.eval point = g.eval point

theorem SameAnswers.of_ok {built other : Except (Error α) (Interpolant α)} {f g : Interpolant α}
    (hf : built = .ok f) (hg : other = .ok g) (hdomain : f.chart.domain = g.chart.domain)
    (heval : ∀ point, f.eval point = g.eval point) : SameAnswers built other := by
  subst hf hg
  refine ⟨⟨fun _ => ⟨g, rfl⟩, fun _ => ⟨f, rfl⟩⟩, fun f' g' hf' hg' => ?_, fun f' g' hf' hg' => ?_⟩
  · obtain rfl := Except.ok.inj hf'
    obtain rfl := Except.ok.inj hg'
    exact hdomain
  · obtain rfl := Except.ok.inj hf'
    obtain rfl := Except.ok.inj hg'
    exact heval

theorem SameAnswers.of_turn {built other : Except (Error α) (Interpolant α)} {a b : Bool}
    (h : ∀ f, built = .ok f → other = .ok (f.turn a b))
    (h' : ∀ g, other = .ok g → built = .ok (g.turn a b)) : SameAnswers built other := by
  refine ⟨⟨fun ⟨f, hf⟩ => ⟨_, h f hf⟩, fun ⟨g, hg⟩ => ⟨_, h' g hg⟩⟩, fun f g hf hg => ?_,
    fun f g hf hg point => ?_⟩
  · obtain rfl := Except.ok.inj ((h f hf).symm.trans hg)
    exact (f.chart.domain_turn a b).symm
  · obtain rfl := Except.ok.inj ((h f hf).symm.trans hg)
    exact (f.eval_turn a b point).symm

/-- A table is built as its chart is. -/
theorem build_turn {x y x' y' : Readings α} {z z' : Option (Readings α)} {options : Options α}
    {a b : Bool}
    (h : ∀ chart, Chart.ofReadings x y z options.axis = .ok chart →
      Chart.ofReadings x' y' z' options.axis = .ok (chart.turn a b)) (f : Interpolant α)
    (hf : build x y z options = .ok f) : build x' y' z' options = .ok (f.turn a b) := by
  obtain ⟨hchart, hbounds⟩ := build_eq_ok_iff.mp hf
  exact build_eq_ok_iff.mpr ⟨h f.chart hchart, hbounds⟩

section Turned

variable [LawfulScalar α] (options : Options α)

theorem build_turn_curve (x y : Readings α) (a : Bool) :
    SameAnswers (build x y none options) (build (x.turn a) (y.turn a) none options) := by
  refine .of_turn (build_turn fun chart h => Chart.ofReadings_turn_curve h a)
    (build_turn fun chart h => ?_)
  have hback := Chart.ofReadings_turn_curve h a
  rwa [Readings.turn_turn, Readings.turn_turn] at hback

theorem build_turn_grid (x y : Readings α) (rows : Array (Array α)) (a b : Bool) :
    SameAnswers (build x y (some (.grid rows)) options)
      (build (x.turn a) (y.turn b) (some (.grid (Rows.turn options.axis a b rows))) options) := by
  refine .of_turn (build_turn fun chart h => Chart.ofReadings_turn_grid h a b)
    (build_turn fun chart h => ?_)
  have hback := Chart.ofReadings_turn_grid h a b
  rwa [Readings.turn_turn, Readings.turn_turn, Rows.turn_turn] at hback

theorem build_turn_family (c : Coordinate) (outer z : Readings α) (rows : Array (Array α))
    (a b : Bool) :
    SameAnswers
      (build (c.pick outer (.grid rows)) (c.pick (.grid rows) outer) (some z) options)
      (build (c.pick (outer.turn a) (.grid (Rows.turn options.axis a b rows)))
        (c.pick (.grid (Rows.turn options.axis a b rows)) (outer.turn a)) (some (z.turn b))
        options) := by
  cases c with
  | x =>
    refine .of_turn (build_turn fun chart h => Chart.ofReadings_turn_family_x h a b)
      (build_turn fun chart h => ?_)
    have hback := Chart.ofReadings_turn_family_x (x := outer.turn a) h a b
    rwa [Readings.turn_turn, Readings.turn_turn, Rows.turn_turn] at hback
  | y =>
    refine .of_turn (build_turn fun chart h => Chart.ofReadings_turn_family_y h a b)
      (build_turn fun chart h => ?_)
    have hback := Chart.ofReadings_turn_family_y (y := outer.turn a) h a b
    rwa [Readings.turn_turn, Readings.turn_turn, Rows.turn_turn] at hback

end Turned

/-- A table of doubles answers the same in whichever direction it lists its variables: a curve with
both vectors turned round, a value grid with the samples of either variable turned round together
with the values that follow them, and a family with its outer samples turned round together with its
lines, or each line together with the values they share. -/
theorem build_either_direction (options : Options Float) :
    (∀ x y : Readings Float,
      SameAnswers (build x y none options) (build (x.turn true) (y.turn true) none options)) ∧
    (∀ (x y : Readings Float) (rows : Array (Array Float)) (a b : Bool),
      SameAnswers (build x y (some (.grid rows)) options)
        (build (x.turn a) (y.turn b) (some (.grid (Rows.turn options.axis a b rows))) options)) ∧
    ∀ (c : Coordinate) (outer z : Readings Float) (rows : Array (Array Float)) (a b : Bool),
      SameAnswers
        (build (c.pick outer (.grid rows)) (c.pick (.grid rows) outer) (some z) options)
        (build (c.pick (outer.turn a) (.grid (Rows.turn options.axis a b rows)))
          (c.pick (.grid (Rows.turn options.axis a b rows)) (outer.turn a)) (some (z.turn b))
          options) :=
  ⟨fun x y => build_turn_curve options x y true, build_turn_grid options,
    build_turn_family options⟩

end Interpolant

end DesignChart
