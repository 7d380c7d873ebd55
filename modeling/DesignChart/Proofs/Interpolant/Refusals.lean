import Mathlib
import DesignChart.Proofs.Axis.Weights
import DesignChart.Proofs.Interpolant.Clamped
import DesignChart.Proofs.Interpolant.Families

/-!
# Which points are refused, and for what

Under the policy that refuses, a reading makes demands of its coordinates one after the other, and
the first one that is not met is what the error tells. A curve and a value grid demand that each
coordinate lie in its range. A family demands it of its outer coordinate, and then that the inner
one lie in the range of each curve that is used there, which the domain of the family does not say.
-/

namespace DesignChart

open Admission (andThen)

section Demands

variable {α : Type}

/-- The demand that the coordinate `value` of the variable called `name` lie in `range`. -/
structure Demand (α : Type) where
  name : String
  value : α
  range : Interval α

/-- The error that names the demand. -/
def Demand.refusal (demand : Demand α) : Error α :=
  .outOfDomain demand.name demand.value demand.range

variable [Scalar α]

def Demand.Met (demand : Demand α) : Prop := demand.value ∈ demand.range

instance : DecidablePred (Demand.Met (α := α)) := fun demand =>
  inferInstanceAs (Decidable (demand.value ∈ demand.range))

/-- The refusal of the first demand that is not met. -/
def firstRefusal (demands : List (Demand α)) : Option (Error α) :=
  (demands.find? fun demand => ¬ demand.Met).map Demand.refusal

theorem firstRefusal_eq_none_iff {demands : List (Demand α)} :
    firstRefusal demands = none ↔ ∀ demand ∈ demands, demand.Met := by
  simp [firstRefusal, List.find?_eq_none]

theorem firstRefusal_append (demands more : List (Demand α)) :
    firstRefusal (demands ++ more) = (firstRefusal demands).or (firstRefusal more) := by
  unfold firstRefusal
  rw [List.find?_append, Option.map_or]

/-- The reading fails at the first demand that is not met, and at nothing else. -/
inductive Asks (demands : List (Demand α)) : Except (Error α) (Admission α) → Prop
  | refused (e : Error α) (h : firstRefusal demands = some e) : Asks demands (.error e)
  | admitted (h : firstRefusal demands = none) (v : α) : Asks demands (.ok (.inside v))

namespace Asks

variable {demands more : List (Demand α)} {reading : Except (Error α) (Admission α)}

theorem inside (v : α) : Asks [] (.ok (.inside v)) := .admitted rfl v

theorem andThen {next : α → Except (Error α) (Admission α)} (h : Asks demands reading)
    (hnext : ∀ v, reading = .ok (.inside v) → Asks more (next v)) :
    Asks (demands ++ more) (andThen reading next) := by
  cases h with
  | refused e he =>
    refine .refused e ?_
    rw [firstRefusal_append, he]
    rfl
  | admitted hmet v =>
    have hor : firstRefusal (demands ++ more) = firstRefusal more := by
      rw [firstRefusal_append, hmet]
      rfl
    have hnext := hnext v rfl
    change Asks _ (next v)
    generalize next v = reading at hnext ⊢
    cases hnext with
    | refused e he => exact .refused e (hor.trans he)
    | admitted hmore w => exact .admitted (hor.trans hmore) w

theorem error_iff (h : Asks demands reading) (e : Error α) :
    Admission.value <$> reading = .error e ↔ firstRefusal demands = some e := by
  cases h with
  | refused e' he =>
    rw [he]
    exact ⟨fun heq => congrArg some (Except.error.inj heq), fun heq =>
      congrArg Except.error (Option.some.inj heq)⟩
  | admitted hmet v =>
    rw [hmet]
    exact ⟨nofun, nofun⟩

theorem ok_iff (h : Asks demands reading) :
    (∃ v, Admission.value <$> reading = .ok v) ↔ ∀ demand ∈ demands, demand.Met := by
  rw [← firstRefusal_eq_none_iff]
  cases h with
  | refused e he =>
    rw [he]
    exact ⟨nofun, nofun⟩
  | admitted hmet v => exact ⟨fun _ => hmet, fun _ => ⟨v, rfl⟩⟩

end Asks

theorem RangePolicy.raise_asks (name : String) (range : Interval α) (v : α) :
    Asks [⟨name, v, range⟩] (raise.apply name range v) := by
  rcases raise_apply_cases name range v with ⟨hv, happly⟩ | ⟨hv, happly⟩
  · rw [happly]
    exact .admitted (firstRefusal_eq_none_iff.mpr (by simpa [Demand.Met] using hv)) v
  · rw [happly]
    exact .refused _ (by simp [firstRefusal, Demand.Met, Demand.refusal, hv])

theorem Curve.evalWithin_asks (curve : Curve α) (c : Coordinate) (v : α) :
    Asks [⟨c.name, v, curve.range⟩] (curve.evalWithin .raise c v) := by
  rw [evalWithin_eq]
  exact (RangePolicy.raise_asks c.name curve.range v).andThen fun w _ => .inside (curve.eval w)

theorem ValueGrid.evalWithin_asks (grid : ValueGrid α) (x y : α) :
    Asks [⟨"x", x, grid.xAxis.range⟩, ⟨"y", y, grid.yAxis.range⟩] (grid.evalWithin .raise x y) := by
  have hx := RangePolicy.raise_asks "x" grid.xAxis.range x
  have hy := RangePolicy.raise_asks "y" grid.yAxis.range y
  have hreading : grid.evalWithin .raise x y =
      Admission.andThen (RangePolicy.raise.apply "x" grid.xAxis.range x) fun u =>
        Admission.andThen (RangePolicy.raise.apply "y" grid.yAxis.range y) fun w =>
          .ok (.inside (grid.eval u w)) := by
    unfold evalWithin
    generalize RangePolicy.raise.apply "x" grid.xAxis.range x = xs at hx ⊢
    generalize RangePolicy.raise.apply "y" grid.yAxis.range y = ys at hy ⊢
    cases hx with
    | refused e he => rfl
    | admitted hmet u => cases hy <;> rfl
  rw [hreading]
  exact hx.andThen fun u _ => hy.andThen fun w _ => .inside (grid.eval u w)

end Demands

namespace CurveFamily

variable {family : CurveFamily Exact}

/-- The demand on the inner coordinate by the curve of outer sample `i`. -/
def innerDemand (family : CurveFamily Exact) (v : Exact) (i : Fin family.outer.samples.size) :
    Demand Exact :=
  ⟨family.outerVariable.other.name, v, (family.curveAt i).range⟩

/-- What a family demands: of the outer coordinate `w` first, and then of the inner coordinate `v`
for each curve that is used. -/
def demands (family : CurveFamily Exact) (w v : Exact) : List (Demand Exact) :=
  ⟨family.outerVariable.name, w, family.outer.range⟩ ::
    (family.outer.usedSamples w).map (family.innerDemand v)

theorem endWithin_asks (v : Exact) (i : Fin family.outer.samples.size) {a b : Exact} {p : Prop}
    [Decidable p] (hp : a < b ↔ p) :
    Asks ((if p then [i] else []).map (family.innerDemand v))
      (endWithin .raise family.outerVariable.other v (a < b) (family.curveAt i)) := by
  by_cases hab : a < b
  · rw [if_pos (hp.mp hab), endWithin_of_lt _ _ _ _ hab]
    exact (family.curveAt i).evalWithin_asks _ v
  · rw [if_neg (mt hp.mpr hab), endWithin_of_not_lt _ _ _ _ hab]
    exact .inside 0

theorem evalWithin_asks (h : family.outer.Increasing) (w v : Exact) :
    Asks (family.demands w v) (family.evalWithin .raise w v) := by
  rw [evalWithin_eq]
  refine (RangePolicy.raise_asks _ _ w).andThen fun u hu => ?_
  obtain ⟨hmem, rfl⟩ : w ∈ family.outer.range ∧ u = w := by
    rcases RangePolicy.raise_apply_cases family.outerVariable.name family.outer.range w with
      ⟨hmem, happly⟩ | ⟨-, happly⟩
    · exact ⟨hmem, Admission.inside.inj (Except.ok.inj (hu.symm.trans happly))⟩
    · cases happly.symm.trans hu
  have hused := h.usedSamples_eq (Axis.contains_locate h hmem)
  rw [hused, List.map_append, ← List.append_nil (List.map _ (ite _ _ _) ++ _), List.append_assoc]
  refine (endWithin_asks v _ (h.fraction_lt_one_iff _ u)).andThen fun start _ => ?_
  refine (endWithin_asks v _ (h.zero_lt_fraction_iff _ u)).andThen fun stop _ => ?_
  exact .inside _

/-- What a family demands puts the point in its domain. -/
theorem mem_of_demands (h : family.Increasing) {w v : Exact}
    (hmet : ∀ demand ∈ family.demands w v, demand.Met) :
    w ∈ family.outer.range ∧ v ∈ family.innerRange := by
  have hw : w ∈ family.outer.range := hmet _ List.mem_cons_self
  have hused : ∃ i, i ∈ family.outer.usedSamples w := by
    have hcell := Axis.contains_locate h.outer hw
    rw [h.outer.usedSamples_eq hcell]
    by_cases hstart : (family.outer.locate w).start < w
    · exact ⟨_, List.mem_append_right _ (by rw [if_pos hstart]; exact List.mem_singleton_self _)⟩
    · have hle := Scalar.le_of_not_lt (LawfulScalar.isNaN_of_le hcell.1).1
        (LawfulScalar.isNaN_of_le hcell.1).2 hstart
      have hstop := Scalar.lt_of_le_of_lt hle (h.outer.start_lt_stop (family.outer.locate w))
      exact ⟨_, List.mem_append_left _ (by rw [if_pos hstop]; exact List.mem_singleton_self _)⟩
  obtain ⟨i, hi⟩ := hused
  have hv : v ∈ (family.curveAt i).range :=
    hmet _ (List.mem_cons_of_mem _ (List.mem_map_of_mem hi))
  have hwithin := h.within_innerRange i
  exact ⟨hw, LawfulScalar.le_trans hwithin.lower_le hv.1, LawfulScalar.le_trans hv.2 hwithin.le_upper⟩

end CurveFamily

/-- What a chart demands of a point, in the order in which it does. -/
def Chart.demands (chart : Chart Exact) (point : List Exact) : List (Demand Exact) :=
  match chart, point with
  | .surface (.family family) _, [x, y] =>
    family.demands (family.outerVariable.pick x y) (family.outerVariable.pick y x)
  | chart, point => List.zipWith3 Demand.mk ["x", "y"] point chart.domain

namespace Interpolant

theorem exists_asks {chart : Chart Exact} (h : chart.Increasing) {point : List Exact}
    (hlen : point.length = chart.dimension) :
    ∃ reading, Asks (chart.demands point) reading ∧
      eval ⟨chart, .raise⟩ point = Admission.value <$> reading := by
  cases chart with
  | curve curve =>
    obtain ⟨x, rfl⟩ := List.length_eq_one_iff.mp hlen
    exact ⟨_, curve.evalWithin_asks .x x, rfl⟩
  | surface surface source =>
    obtain ⟨x, y, rfl⟩ := List.length_eq_two.mp hlen
    refine ⟨_, ?_, eval_surface surface source .raise x y⟩
    cases surface with
    | grid grid => exact grid.evalWithin_asks x y
    | family family =>
      have hasks := family.evalWithin_asks h.outer
      cases hc : family.outerVariable with
      | x =>
        rw [Surface.evalWithin_family_x hc, Chart.demands, hc]
        exact hasks x y
      | y =>
        rw [Surface.evalWithin_family_y hc, Chart.demands, hc]
        exact hasks y x

theorem mem_domain_of_demands {chart : Chart Exact} (h : chart.Increasing) {point : List Exact}
    (hlen : point.length = chart.dimension) (hmet : ∀ demand ∈ chart.demands point, demand.Met) :
    List.Forall₂ (· ∈ ·) point chart.domain := by
  cases chart with
  | curve curve =>
    obtain ⟨x, rfl⟩ := List.length_eq_one_iff.mp hlen
    exact .cons (hmet _ List.mem_cons_self) .nil
  | surface surface source =>
    obtain ⟨x, y, rfl⟩ := List.length_eq_two.mp hlen
    cases surface with
    | grid grid =>
      have hx := hmet _ List.mem_cons_self
      have hy := hmet _ (List.mem_cons_of_mem _ List.mem_cons_self)
      exact .cons hx (.cons hy .nil)
    | family family =>
      obtain ⟨hw, hv⟩ := CurveFamily.mem_of_demands h hmet
      unfold Chart.domain Surface.domain
      cases hc : family.outerVariable with
      | x =>
        simp only [hc, Coordinate.pick] at hw hv ⊢
        exact .cons hw (.cons hv .nil)
      | y =>
        simp only [hc, Coordinate.pick] at hw hv ⊢
        exact .cons hv (.cons hw .nil)

/-- Under the policy that refuses, a point is answered exactly if it meets what the chart demands,
and is then in the domain; otherwise the error tells the first demand that it does not meet. -/
theorem eval_refuses_first_unmet {x y : Readings Exact} {z : Option (Readings Exact)}
    {options : Options Exact} {f : Interpolant Exact} (h : build x y z options = .ok f)
    (hpolicy : options.bounds = .raise) {point : List Exact}
    (hlen : point.length = f.chart.dimension) :
    (∀ e, f.eval point = .error e ↔ firstRefusal (f.chart.demands point) = some e) ∧
      ((∃ v, f.eval point = .ok v) ↔ ∀ demand ∈ f.chart.demands point, demand.Met) ∧
      ((∃ v, f.eval point = .ok v) → List.Forall₂ (· ∈ ·) point f.chart.domain) := by
  obtain ⟨hchart, hbounds⟩ := build_eq_ok_iff.mp h
  have hinc := Chart.increasing_of_ofReadings hchart
  obtain ⟨chart, policy⟩ := f
  obtain rfl : policy = .raise := hbounds.trans hpolicy
  obtain ⟨reading, hasks, heval⟩ := exists_asks hinc hlen
  have hok := hasks.ok_iff
  rw [← heval] at hok
  refine ⟨fun e => ?_, hok, fun hv => mem_domain_of_demands hinc hlen (hok.mp hv)⟩
  rw [heval]
  exact hasks.error_iff e

/-- Between two curves of different lengths: the point is in the domain, but beyond the shorter
curve. -/
theorem eval_refuses_inside_the_domain :
    ∃ f, build (.vector #[(0 : Exact), .number 2]) (.grid #[#[0, .number 3], #[0, 1]])
        (some (.vector #[0, 1])) ⟨none, .raise⟩ = .ok f ∧
      f.eval [1, .number 2] = .error (.outOfDomain "y" (.number 2) ⟨0, 1⟩) ∧
      List.Forall₂ (· ∈ ·) [(1 : Exact), .number 2] f.chart.domain := by
  let outer : Axis Exact := ⟨#[0, .number 2], false, by decide⟩
  let longer : Curve Exact := ⟨⟨#[0, .number 3], false, by decide⟩, #[0, 1], rfl⟩
  let shorter : Curve Exact := ⟨⟨#[0, 1], false, by decide⟩, #[0, 1], rfl⟩
  let family : CurveFamily Exact := ⟨.x, outer, #[longer, shorter], rfl⟩
  let f : Interpolant Exact := ⟨.surface (.family family) ⟨.y, .asWritten⟩, .raise⟩
  have hf : build (.vector #[0, .number 2]) (.grid #[#[0, .number 3], #[0, 1]])
      (some (.vector #[0, 1])) ⟨none, .raise⟩ = .ok f := rfl
  have hlen : [(1 : Exact), .number 2].length = f.chart.dimension := rfl
  obtain ⟨herror, -⟩ := eval_refuses_first_unmet hf rfl hlen
  have hunmet : firstRefusal (f.chart.demands [1, .number 2]) =
      some (.outOfDomain "y" (.number 2) ⟨0, 1⟩) := rfl
  have hmem : 1 ∈ outer.range ∧ .number 2 ∈ longer.range := by decide +kernel
  exact ⟨f, hf, (herror _).mpr hunmet, .cons hmem.1 (.cons hmem.2 .nil)⟩

end Interpolant

end DesignChart
