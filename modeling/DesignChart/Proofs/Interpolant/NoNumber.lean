import Mathlib
import DesignChart.Proofs.Interpolant.Families
import DesignChart.Proofs.Scalar.Double

/-!
# Coordinates that are no number

No policy admits a coordinate that is NaN, so a chart that asks about each of its coordinates
refuses every point with such a one. A family asks about its inner coordinate only for the curves
that have a weight, and about these only once it has admitted the outer coordinate. It answers
beside an inner NaN where an outer coordinate out of range is filled in, and where the place between
the outer samples is itself NaN, so that neither curve has a weight.
-/

namespace DesignChart

open Admission (andThen)
open Outcome (FailsOnly)

section Errors

variable {α : Type}

/-- The error says which coordinate is out of range. -/
def Error.Refuses (e : Error α) : Prop := ∃ name v range, e = .outOfDomain name v range

theorem Admission.failsOnly_andThen {ε : Type} {P : ε → Prop} {reading : Except ε (Admission α)}
    {next : α → Except ε (Admission α)} (hr : FailsOnly P reading)
    (hn : ∀ v, FailsOnly P (next v)) : FailsOnly P (andThen reading next) :=
  hr.bind fun admission =>
    match admission with
    | .inside v => hn v
    | .answered _ => .ok _

variable [Scalar α]

theorem RangePolicy.apply_refuses (policy : RangePolicy α) (name : String) (range : Interval α)
    (v : α) : FailsOnly Error.Refuses (policy.apply name range v) := by
  unfold apply
  split
  · exact .ok _
  · split
    · exact .error ⟨name, v, range, rfl⟩
    · cases policy with
      | raise => exact .error ⟨name, v, range, rfl⟩
      | fill c => exact .ok _
      | clamp => exact .ok _

theorem Curve.evalWithin_refuses (curve : Curve α) (policy : RangePolicy α) (c : Coordinate)
    (v : α) : FailsOnly Error.Refuses (curve.evalWithin policy c v) :=
  (policy.apply_refuses c.name curve.range v).map _

theorem ValueGrid.evalWithin_refuses (grid : ValueGrid α) (policy : RangePolicy α) (x y : α) :
    FailsOnly Error.Refuses (grid.evalWithin policy x y) := by
  refine .bind (policy.apply_refuses _ _ x) fun a => .bind (policy.apply_refuses _ _ y) fun b => ?_
  cases a <;> cases b <;> exact .ok _

theorem CurveFamily.endWithin_refuses (policy : RangePolicy α) (inner : Coordinate) (v : α)
    (weighted : Bool) (curve : Curve α) :
    FailsOnly Error.Refuses (endWithin policy inner v weighted curve) := by
  cases weighted with
  | false => exact .ok _
  | true => exact curve.evalWithin_refuses policy inner v

theorem CurveFamily.evalWithin_refuses (family : CurveFamily α) (policy : RangePolicy α)
    (outer inner : α) : FailsOnly Error.Refuses (family.evalWithin policy outer inner) := by
  rw [evalWithin_eq]
  refine Admission.failsOnly_andThen (policy.apply_refuses _ _ outer) fun w => ?_
  refine Admission.failsOnly_andThen (endWithin_refuses _ _ inner _ _) fun start => ?_
  exact Admission.failsOnly_andThen (endWithin_refuses _ _ inner _ _) fun stop => .ok _

theorem Surface.evalWithin_refuses (surface : Surface α) (policy : RangePolicy α) (x y : α) :
    FailsOnly Error.Refuses (surface.evalWithin policy x y) := by
  cases surface with
  | grid g => exact g.evalWithin_refuses policy x y
  | family f =>
    cases hf : f.outerVariable with
    | x =>
      rw [evalWithin_family_x hf]
      exact f.evalWithin_refuses policy x y
    | y =>
      rw [evalWithin_family_y hf]
      exact f.evalWithin_refuses policy y x

/-- At a point with as many coordinates as the chart has, an interpolant fails only where one of
them is out of range. -/
theorem Interpolant.eval_refuses (f : Interpolant α) {point : List α}
    (h : point.length = f.chart.dimension) : FailsOnly Error.Refuses (f.eval point) := by
  obtain ⟨chart, policy⟩ := f
  cases chart with
  | curve c =>
    obtain ⟨x, rfl⟩ := List.length_eq_one_iff.mp h
    exact (c.evalWithin_refuses policy .x x).map _
  | surface s source =>
    obtain ⟨x, y, rfl⟩ := List.length_eq_two.mp h
    exact (s.evalWithin_refuses policy x y).map _

end Errors

section NoNumber

variable {α : Type} [Scalar α] [LawfulScalar α] {policy : RangePolicy α} {v : α}

theorem RangePolicy.apply_of_isNaN (policy : RangePolicy α) (name : String) (range : Interval α)
    (hv : Scalar.isNaN v = true) :
    policy.apply name range v = .error (.outOfDomain name v range) := by
  have hout : v ∉ range := fun hm => by
    rw [Interval.isNaN_of_mem hm] at hv
    cases hv
  unfold apply
  rw [if_neg hout, if_pos hv]

omit [LawfulScalar α] in
theorem RangePolicy.apply_eq_answered_iff {name : String} {range : Interval α} {c : α} :
    policy.apply name range v = .ok (.answered c) ↔
      policy = .fill c ∧ v ∉ range ∧ Scalar.isNaN v = false := by
  constructor
  · intro h
    unfold apply at h
    split at h
    next => cases h
    next hout =>
      split at h
      next => cases h
      next hnum =>
        cases policy with
        | raise => cases h
        | clamp => cases h
        | fill c' =>
          cases h
          exact ⟨rfl, hout, Bool.not_eq_true _ ▸ hnum⟩
  · rintro ⟨rfl, hout, hnum⟩
    exact apply_of_not_mem _ name hout hnum

theorem Curve.evalWithin_of_isNaN (curve : Curve α) (policy : RangePolicy α) (c : Coordinate)
    (hv : Scalar.isNaN v = true) :
    curve.evalWithin policy c v = .error (.outOfDomain c.name v curve.range) := by
  unfold evalWithin
  rw [RangePolicy.apply_of_isNaN policy _ _ hv]
  rfl

theorem ValueGrid.evalWithin_of_isNaN (grid : ValueGrid α) (policy : RangePolicy α) {x y : α}
    (h : Scalar.isNaN x = true ∨ Scalar.isNaN y = true) (value : Admission α) :
    grid.evalWithin policy x y ≠ .ok value := by
  intro hok
  obtain ⟨a, ha, hok⟩ := Outcome.bind_eq_ok.mp hok
  obtain ⟨b, hb, -⟩ := Outcome.bind_eq_ok.mp hok
  rcases h with hx | hy
  · rw [RangePolicy.apply_of_isNaN policy _ _ hx] at ha
    cases ha
  · rw [RangePolicy.apply_of_isNaN policy _ _ hy] at hb
    cases hb

end NoNumber

namespace CurveFamily

variable {family : CurveFamily Float} {policy : RangePolicy Float} {w v value : Float}

/-- The family answers `value` where its outer coordinate is `w`, with no regard to the inner
one. -/
inductive PassesOver (family : CurveFamily Float) (policy : RangePolicy Float) (w : Float) :
    Float → Prop
  /-- The outer coordinate is out of range and is filled in for. -/
  | filled (c : Float) (hpolicy : policy = .fill c) (hout : w ∉ family.outer.range)
      (hnum : w.isNaN = false) : PassesOver family policy w c
  /-- The outer coordinate is read at a place between two samples that is no number, as the
  differences from them may be infinite. -/
  | unweighted (u : Float)
      (hu : policy.apply family.outerVariable.name family.outer.range w = .ok (.inside u))
      (hplace : ((family.outer.locate u).fraction u).isNaN = true) :
      PassesOver family policy w Float.nan

/-- A curve with a weight refuses an inner coordinate that is no number, so that neither may have
one. -/
theorem readWithin_of_isNaN (cell : Axis.Cell family.outer) {t : Float} (hv : v.isNaN = true)
    {answer : Admission Float} :
    family.readWithin policy cell t v = .ok answer ↔
      t.isNaN = true ∧ answer = .inside Float.nan := by
  have hrefused : ∀ curve : Curve Float, ∃ e,
      curve.evalWithin policy family.outerVariable.other v = .error e := fun curve =>
    ⟨_, curve.evalWithin_of_isNaN policy _ hv⟩
  rw [Double.isNaN_iff]
  by_cases hlow : t < 1
  · obtain ⟨e, he⟩ := hrefused (family.curveAt cell.low)
    rw [← endWithin_of_lt policy _ v _ hlow] at he
    unfold readWithin
    dsimp only
    rw [he]
    exact ⟨nofun, fun h => absurd hlow h.1.1⟩
  · have hstart := endWithin_of_not_lt policy family.outerVariable.other v
      (family.curveAt cell.low) hlow
    by_cases hhigh : 0 < t
    · obtain ⟨e, he⟩ := hrefused (family.curveAt cell.high)
      rw [← endWithin_of_lt policy _ v _ hhigh] at he
      unfold readWithin
      dsimp only
      rw [hstart, he]
      exact ⟨nofun, fun h => absurd hhigh h.1.2⟩
    · have hstop := endWithin_of_not_lt policy family.outerVariable.other v
        (family.curveAt cell.high) hhigh
      have hnan : t.isNaN = true := Double.isNaN_iff.mpr ⟨hlow, hhigh⟩
      rw [readWithin_of_shares hstart hstop, Double.blend_eq_nan _ _ hnan]
      exact ⟨fun h => ⟨⟨hlow, hhigh⟩, (Except.ok.inj h).symm⟩, fun h => congrArg _ h.2.symm⟩

/-- Beside an inner coordinate that is no number a family answers only where it does not ask about
it. -/
theorem evalWithin_of_isNaN (family : CurveFamily Float) (policy : RangePolicy Float) (w : Float)
    (hv : v.isNaN = true) :
    Admission.value <$> family.evalWithin policy w v = .ok value ↔
      family.PassesOver policy w value := by
  rw [evalWithin_eq, Outcome.map_eq_ok]
  constructor
  · rintro ⟨answer, hok, rfl⟩
    obtain ⟨admission, hw, hok⟩ := Outcome.bind_eq_ok.mp hok
    cases admission with
    | answered c =>
      obtain rfl := Except.ok.inj hok
      obtain ⟨hpolicy, hout, hnum⟩ := RangePolicy.apply_eq_answered_iff.mp hw
      exact .filled c hpolicy hout hnum
    | inside u =>
      obtain ⟨hplace, rfl⟩ := (readWithin_of_isNaN _ hv).mp hok
      exact .unweighted u hw hplace
  · rintro (⟨_, hpolicy, hout, hnum⟩ | ⟨u, hw, hplace⟩)
    · rw [RangePolicy.apply_eq_answered_iff.mpr ⟨hpolicy, hout, hnum⟩]
      exact ⟨.answered value, rfl, rfl⟩
    · rw [hw]
      exact ⟨.inside Float.nan, (readWithin_of_isNaN _ hv).mpr ⟨hplace, rfl⟩, rfl⟩

/-- An outer coordinate that is no number is refused before the inner one is asked about. -/
theorem evalWithin_eq_ok_iff (h : w.isNaN = true ∨ v.isNaN = true) :
    Admission.value <$> family.evalWithin policy w v = .ok value ↔
      v.isNaN = true ∧ family.PassesOver policy w value := by
  by_cases hv : v.isNaN = true
  · rw [evalWithin_of_isNaN family policy w hv]
    exact ⟨fun hover => ⟨hv, hover⟩, And.right⟩
  · have hw : w.isNaN = true := h.resolve_right hv
    rw [evalWithin_eq, RangePolicy.apply_of_isNaN policy _ _ hw]
    exact ⟨nofun, fun hover => absurd hover.1 hv⟩

end CurveFamily

namespace Interpolant

/-- The point is one of a family, its inner coordinate is no number, and `value` is answered with no
regard to it. -/
def PassesOver (f : Interpolant Float) (point : List Float) (value : Float) : Prop :=
  ∃ family source outer inner, f.chart = .surface (.family family) source ∧
    point = family.outerVariable.pick [outer, inner] [inner, outer] ∧ inner.isNaN = true ∧
    family.PassesOver f.bounds outer value

theorem passesOver_family {family : CurveFamily Float} {source : GridSource}
    {policy : RangePolicy Float} {outer inner value : Float} :
    PassesOver ⟨.surface (.family family) source, policy⟩
        (family.outerVariable.pick [outer, inner] [inner, outer]) value ↔
      inner.isNaN = true ∧ family.PassesOver policy outer value := by
  constructor
  · rintro ⟨family', source', outer', inner', hchart, hpoint, hinner, hover⟩
    cases hchart
    have hsame : outer = outer' ∧ inner = inner' := by
      cases hf : family.outerVariable <;> simpa [hf, Coordinate.pick, and_comm] using hpoint
    obtain ⟨rfl, rfl⟩ := hsame
    exact ⟨hinner, hover⟩
  · rintro ⟨hinner, hover⟩
    exact ⟨family, source, outer, inner, rfl, rfl, hinner, hover⟩

/-- A point with a coordinate that is no number is refused as out of range under every policy,
unless it is one of a family that passes over its inner coordinate. -/
theorem eval_no_number (f : Interpolant Float) (point : List Float)
    (hlength : point.length = f.chart.dimension) (hnan : ∃ v ∈ point, v.isNaN = true) :
    (∀ value, f.eval point = .ok value ↔ f.PassesOver point value) ∧
      ∀ e, f.eval point = .error e → ∃ name v range, e = .outOfDomain name v range := by
  refine ⟨fun value => ?_, f.eval_refuses hlength⟩
  obtain ⟨chart, policy⟩ := f
  cases chart with
  | curve c =>
    obtain ⟨x, rfl⟩ := List.length_eq_one_iff.mp hlength
    have hx : x.isNaN = true := by simpa using hnan
    have hrefused : eval ⟨.curve c, policy⟩ [x] = .error (.outOfDomain "x" x c.range) :=
      congrArg (Admission.value <$> ·) (c.evalWithin_of_isNaN policy .x hx)
    rw [hrefused]
    exact ⟨nofun, fun ⟨_, _, _, _, hchart, _⟩ => nomatch hchart⟩
  | surface s source =>
    obtain ⟨x, y, rfl⟩ := List.length_eq_two.mp hlength
    have hxy : x.isNaN = true ∨ y.isNaN = true := by simpa [eq_comm] using hnan
    change Admission.value <$> s.evalWithin policy x y = .ok value ↔ _
    cases s with
    | grid g =>
      rw [Outcome.map_eq_ok]
      constructor
      · rintro ⟨answer, hok, -⟩
        exact absurd hok (g.evalWithin_of_isNaN policy hxy answer)
      · rintro ⟨_, _, _, _, hchart, _⟩
        cases hchart
    | family family =>
      cases hf : family.outerVariable with
      | x =>
        have hpoint : [x, y] = family.outerVariable.pick [x, y] [y, x] := by rw [hf]; rfl
        rw [Surface.evalWithin_family_x hf, CurveFamily.evalWithin_eq_ok_iff hxy, hpoint,
          passesOver_family]
      | y =>
        have hpoint : [x, y] = family.outerVariable.pick [y, x] [x, y] := by rw [hf]; rfl
        rw [Surface.evalWithin_family_y hf, CurveFamily.evalWithin_eq_ok_iff hxy.symm, hpoint,
          passesOver_family]

/-- An outer coordinate beyond the axis is filled in for, whatever stands beside it. -/
theorem eval_no_number_beside_a_fill :
    ∃ f, build (.vector #[(0 : Float), 1]) (.grid #[#[0, 1], #[1, 0]]) (some (.vector #[0, 1]))
        ⟨none, .fill (-1)⟩ = .ok f ∧
      f.eval [2, Float.nan] = .ok (-1) := by
  have hlines : ∀ i < 2, ValidSamples (Rows.line none #[#[(0 : Float), 1], #[1, 0]] i) := by
    decide +kernel
  have htable : Chart.TabulatesFamily (.vector #[(0 : Float), 1]) (.grid #[#[0, 1], #[1, 0]])
      (.vector #[0, 1]) none :=
    ⟨_, _, _, rfl, rfl, rfl, by decide +kernel, ⟨Or.inl rfl, ⟨by decide, by decide⟩, rfl⟩, hlines⟩
  obtain ⟨chart, hchart⟩ := Chart.exists_surface_iff.mpr (Or.inr (Or.inl htable))
  obtain ⟨o, written, family, -, -, hfamily, rfl⟩ := Chart.familyOf_eq_ok_iff.mp hchart
  obtain ⟨hvariable, houter, -⟩ := CurveFamily.ofSamples_eq_ok_iff.mp hfamily
  have hsamples : Axis.ofSamples #[(0 : Float), 1] = .ok ⟨#[0, 1], false, by decide⟩ :=
    Axis.ofSamples_eq_ok_iff.mpr
      ⟨by decide +kernel, Or.inl ⟨(Axis.linked_lt_iff _).mp (by decide +kernel), rfl, rfl⟩⟩
  have hout : (2 : Float) ∉ family.outer.range := by
    rw [Except.ok.inj (houter.symm.trans hsamples)]
    decide +kernel
  refine ⟨⟨_, .fill (-1)⟩, build_eq_ok_iff.mpr ⟨hchart, rfl⟩, ?_⟩
  have hanswer := (eval_no_number ⟨.surface (.family family) ⟨.y, o⟩, .fill (-1)⟩ [2, Float.nan] rfl
    ⟨Float.nan, by simp, by decide +kernel⟩).1 (-1)
  refine hanswer.mpr ⟨family, _, 2, Float.nan, rfl, ?_, by decide +kernel, ?_⟩
  · rw [hvariable]
    rfl
  · exact .filled (-1) rfl hout (by decide +kernel)

end Interpolant

end DesignChart
