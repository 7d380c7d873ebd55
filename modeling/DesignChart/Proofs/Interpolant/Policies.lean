import Mathlib
import DesignChart.Interpolant
import DesignChart.Proofs.Axis.Location
import DesignChart.Proofs.Chart.CurveFamily
import DesignChart.Proofs.Chart.ValueGrid
import DesignChart.Proofs.Interval

/-!
# The three range policies side by side

A reading asks its policy about one coordinate after the other and stops at the first answer. The
three policies are followed together: as long as every coordinate is in range they do the same, and
from the first one that is not, one has refused, one has answered and one goes on.
-/

namespace DesignChart

namespace RangePolicy

variable {α : Type} [Scalar α] {range : Interval α} {v : α}

theorem apply_of_mem (policy : RangePolicy α) (name : String) (h : v ∈ range) :
    policy.apply name range v = .ok (.inside v) := if_pos h

theorem apply_of_not_mem (policy : RangePolicy α) (name : String) (h : v ∉ range)
    (hv : Scalar.isNaN v = false) :
    policy.apply name range v =
      match policy with
      | raise => .error (.outOfDomain name v range)
      | fill value => .ok (.answered value)
      | clamp => .ok (.inside (range.clamp v)) := by
  unfold apply
  rw [if_neg h, hv]
  rfl

/-- What is not refused is read where it is. -/
theorem raise_apply_cases (name : String) (range : Interval α) (v : α) :
    (v ∈ range ∧ raise.apply name range v = .ok (.inside v)) ∨
      (v ∉ range ∧ raise.apply name range v = .error (.outOfDomain name v range)) := by
  by_cases h : v ∈ range
  · exact Or.inl ⟨h, apply_of_mem raise name h⟩
  · refine Or.inr ⟨h, ?_⟩
    unfold apply
    rw [if_neg h]
    exact ite_self _

/-- To clamp is to go on with the nearest number in range, whether that is another one or not. -/
theorem clamp_apply [LawfulScalar α] (name : String) (hv : Scalar.isNaN v = false) :
    clamp.apply name range v = .ok (.inside (range.clamp v)) := by
  by_cases h : v ∈ range
  · rw [apply_of_mem clamp name h, Interval.clamp_of_mem h]
  · exact apply_of_not_mem clamp name h hv

/-- What a policy lets in is in range. -/
theorem mem_of_apply [LawfulScalar α] {policy : RangePolicy α} {name : String} {w : α}
    (h : range.Proper) (hw : policy.apply name range v = .ok (.inside w)) : w ∈ range := by
  by_cases hv : v ∈ range
  · rw [apply_of_mem policy name hv] at hw
    obtain rfl := Admission.inside.inj (Except.ok.inj hw)
    exact hv
  · cases hnan : Scalar.isNaN v with
    | true => simp [apply, hv, hnan] at hw
    | false =>
      rw [apply_of_not_mem policy name hv hnan] at hw
      cases policy with
      | raise => cases hw
      | fill value => cases hw
      | clamp =>
        obtain rfl := Admission.inside.inj (Except.ok.inj hw)
        exact h.clamp_mem hnan

end RangePolicy

namespace Admission

variable {α ε : Type}

/-- Goes on with the reading from a number inside; an answer stands. -/
def andThen (reading : Except ε (Admission α)) (next : α → Except ε (Admission α)) :
    Except ε (Admission α) :=
  reading >>= fun admission =>
    match admission with
    | .inside v => next v
    | .answered value => .ok (.answered value)

theorem bind_eq_andThen {reading : Except ε (Admission α)}
    {next : Admission α → Except ε (Admission α)}
    (h : ∀ value, next (.answered value) = .ok (.answered value)) :
    (reading >>= next) = andThen reading fun v => next (.inside v) := by
  cases reading with
  | error e => rfl
  | ok admission =>
    cases admission with
    | inside v => rfl
    | answered value => exact h value

end Admission

open Admission (andThen)

/-- The readings of one point under the three policies, `c` being the value filled in. -/
inductive Agrees {α : Type} (c : α) :
    (raise fill clamp : Except (Error α) (Admission α)) → Prop
  | covered (v : α) : Agrees c (.ok (.inside v)) (.ok (.inside v)) (.ok (.inside v))
  | beyond (name : String) (v : α) (range : Interval α) (w : α) :
      Agrees c (.error (.outOfDomain name v range)) (.ok (.answered c)) (.ok (.inside w))

namespace Agrees

variable {α : Type} {c : α} {raised filled clamped : Except (Error α) (Admission α)}

theorem moved (h : Agrees c raised filled clamped) : ∃ w, clamped = .ok (.inside w) := by
  cases h with
  | covered v => exact ⟨v, rfl⟩
  | beyond name v range w => exact ⟨w, rfl⟩

/-- Readings that agree go on to agree. -/
theorem andThen {next next' next'' : α → Except (Error α) (Admission α)}
    (h : Agrees c raised filled clamped) (hnext : ∀ v, Agrees c (next v) (next' v) (next'' v)) :
    Agrees c (andThen raised next) (andThen filled next') (andThen clamped next'') := by
  cases h with
  | covered v => exact hnext v
  | beyond name v range w =>
    obtain ⟨u, hu⟩ := (hnext w).moved
    change Agrees c (.error _) (.ok _) (next'' w)
    rw [hu]
    exact .beyond name v range u

theorem value_of_ok (h : Agrees c raised filled clamped) {v : α}
    (hv : Admission.value <$> raised = .ok v) :
    Admission.value <$> filled = .ok v ∧ Admission.value <$> clamped = .ok v := by
  cases h with
  | covered w => exact ⟨hv, hv⟩
  | beyond name w range u => cases hv

theorem value_of_error (h : Agrees c raised filled clamped) {e : Error α}
    (he : Admission.value <$> raised = .error e) :
    (∃ name v range, e = .outOfDomain name v range) ∧ Admission.value <$> filled = .ok c ∧
      ∃ w, Admission.value <$> clamped = .ok w := by
  cases h with
  | covered w => cases he
  | beyond name w range u =>
    obtain rfl := Except.error.inj he
    exact ⟨⟨name, w, range, rfl⟩, rfl, u, rfl⟩

end Agrees

variable {α : Type} [Scalar α]

theorem Curve.evalWithin_eq (curve : Curve α) (policy : RangePolicy α) (coordinate : Coordinate)
    (v : α) :
    curve.evalWithin policy coordinate v =
      andThen (policy.apply coordinate.name curve.range v) fun w => .ok (.inside (curve.eval w)) := by
  unfold evalWithin
  cases policy.apply coordinate.name curve.range v with
  | error e => rfl
  | ok admission => cases admission <;> rfl

theorem Curve.evalWithin_of_mem {curve : Curve α} (policy : RangePolicy α)
    (coordinate : Coordinate) {v : α} (hv : v ∈ curve.range) :
    curve.evalWithin policy coordinate v = .ok (.inside (curve.eval v)) := by
  rw [evalWithin_eq, RangePolicy.apply_of_mem policy _ hv]
  rfl

theorem Curve.evalWithin_clamp [LawfulScalar α] (curve : Curve α) (coordinate : Coordinate) {v : α}
    (hv : Scalar.isNaN v = false) :
    curve.evalWithin .clamp coordinate v = .ok (.inside (curve.eval (curve.range.clamp v))) := by
  rw [evalWithin_eq, RangePolicy.clamp_apply _ hv]
  rfl

theorem ValueGrid.evalWithin_of_apply {grid : ValueGrid α} {policy : RangePolicy α} {x y u w : α}
    (hx : policy.apply "x" grid.xAxis.range x = .ok (.inside u))
    (hy : policy.apply "y" grid.yAxis.range y = .ok (.inside w)) :
    grid.evalWithin policy x y = .ok (.inside (grid.eval u w)) := by
  unfold evalWithin
  rw [hx, hy]
  rfl

/-- What a family answers in a cell of its outer axis, a fraction `t` of the way along it. -/
def CurveFamily.readWithin (family : CurveFamily α) (policy : RangePolicy α)
    (cell : Axis.Cell family.outer) (t inner : α) : Except (Error α) (Admission α) :=
  let share := endWithin policy family.outerVariable.other inner
  andThen (share (t < 1) (family.curveAt cell.low)) fun start =>
    andThen (share (0 < t) (family.curveAt cell.high)) fun stop =>
      .ok (.inside (blend start stop t))

theorem CurveFamily.evalWithin_eq (family : CurveFamily α) (policy : RangePolicy α)
    (outer inner : α) :
    family.evalWithin policy outer inner =
      andThen (policy.apply family.outerVariable.name family.outer.range outer) fun w =>
        family.readWithin policy (family.outer.locate w) ((family.outer.locate w).fraction w)
          inner := by
  unfold evalWithin
  refine (Admission.bind_eq_andThen (by intro; rfl)).trans (congrArg _ (funext fun w => ?_))
  refine (Admission.bind_eq_andThen (by intro; rfl)).trans (congrArg _ (funext fun start => ?_))
  exact Admission.bind_eq_andThen (by intro; rfl)

/-- Cells whose two curves answer alike are read alike. -/
theorem CurveFamily.readWithin_congr {family other : CurveFamily α} {policy : RangePolicy α} {v : α}
    {cell : Axis.Cell family.outer} {cell' : Axis.Cell other.outer}
    (hvariable : other.outerVariable = family.outerVariable)
    (hlow : (other.curveAt cell'.low).evalWithin policy family.outerVariable.other v =
      (family.curveAt cell.low).evalWithin policy family.outerVariable.other v)
    (hhigh : (other.curveAt cell'.high).evalWithin policy family.outerVariable.other v =
      (family.curveAt cell.high).evalWithin policy family.outerVariable.other v) (t : α) :
    other.readWithin policy cell' t v = family.readWithin policy cell t v := by
  unfold readWithin endWithin
  simp only [hvariable, hlow, hhigh]

theorem CurveFamily.endWithin_of_lt (policy : RangePolicy α) (inner : Coordinate) (v : α)
    (curve : Curve α) {a b : α} (h : a < b) :
    endWithin policy inner v (a < b) curve = curve.evalWithin policy inner v :=
  if_pos (decide_eq_true h)

theorem CurveFamily.endWithin_of_not_lt (policy : RangePolicy α) (inner : Coordinate) (v : α)
    (curve : Curve α) {a b : α} (h : ¬ a < b) :
    endWithin policy inner v (a < b) curve = .ok (.inside 0) :=
  if_neg (by simpa using h)

/-- The value of a family in a cell is blended from the shares of the two curves at its ends. -/
theorem CurveFamily.readWithin_of_shares {family : CurveFamily α} {policy : RangePolicy α}
    {cell : Axis.Cell family.outer} {t inner start stop : α}
    (hstart : endWithin policy family.outerVariable.other inner (t < 1) (family.curveAt cell.low) =
      .ok (.inside start))
    (hstop : endWithin policy family.outerVariable.other inner (0 < t) (family.curveAt cell.high) =
      .ok (.inside stop)) :
    family.readWithin policy cell t inner = .ok (.inside (blend start stop t)) := by
  unfold readWithin
  dsimp only
  rw [hstart, hstop]
  rfl

theorem RangePolicy.apply_agrees (c : α) (name : String) (range : Interval α) {v : α}
    (hv : Scalar.isNaN v = false) :
    Agrees c (raise.apply name range v) ((fill c).apply name range v)
      (clamp.apply name range v) := by
  by_cases h : v ∈ range
  · simp only [apply_of_mem _ name h]
    exact .covered v
  · simp only [apply_of_not_mem _ name h hv]
    exact .beyond name v range (range.clamp v)

theorem Curve.evalWithin_agrees (curve : Curve α) (c : α) (coordinate : Coordinate) {v : α}
    (hv : Scalar.isNaN v = false) :
    Agrees c (curve.evalWithin .raise coordinate v) (curve.evalWithin (.fill c) coordinate v)
      (curve.evalWithin .clamp coordinate v) := by
  simp only [evalWithin_eq]
  exact (RangePolicy.apply_agrees c _ _ hv).andThen fun w => .covered _

theorem ValueGrid.evalWithin_agrees (grid : ValueGrid α) (c : α) {x y : α}
    (hx : Scalar.isNaN x = false) (hy : Scalar.isNaN y = false) :
    Agrees c (grid.evalWithin .raise x y) (grid.evalWithin (.fill c) x y)
      (grid.evalWithin .clamp x y) := by
  unfold evalWithin
  -- both coordinates are asked about before either answer is looked at
  have hxs := RangePolicy.apply_agrees c "x" grid.xAxis.range hx
  have hys := RangePolicy.apply_agrees c "y" grid.yAxis.range hy
  generalize RangePolicy.raise.apply "x" grid.xAxis.range x = xr at hxs ⊢
  generalize (RangePolicy.fill c).apply "x" grid.xAxis.range x = xf at hxs ⊢
  generalize RangePolicy.clamp.apply "x" grid.xAxis.range x = xc at hxs ⊢
  generalize RangePolicy.raise.apply "y" grid.yAxis.range y = yr at hys ⊢
  generalize (RangePolicy.fill c).apply "y" grid.yAxis.range y = yf at hys ⊢
  generalize RangePolicy.clamp.apply "y" grid.yAxis.range y = yc at hys ⊢
  cases hxs with
  | covered v =>
    cases hys with
    | covered w => exact .covered _
    | beyond name w range u => exact .beyond name w range _
  | beyond name v range u =>
    cases hys with
    | covered w => exact .beyond name v range _
    | beyond name' w range' u' => exact .beyond name v range _

theorem CurveFamily.endWithin_agrees (c : α) (inner : Coordinate) {v : α}
    (hv : Scalar.isNaN v = false) (weighted : Bool) (curve : Curve α) :
    Agrees c (endWithin .raise inner v weighted curve) (endWithin (.fill c) inner v weighted curve)
      (endWithin .clamp inner v weighted curve) := by
  cases weighted with
  | false => exact .covered 0
  | true => exact curve.evalWithin_agrees c inner hv

theorem CurveFamily.evalWithin_agrees (family : CurveFamily α) (c : α) {outer inner : α}
    (ho : Scalar.isNaN outer = false) (hi : Scalar.isNaN inner = false) :
    Agrees c (family.evalWithin .raise outer inner) (family.evalWithin (.fill c) outer inner)
      (family.evalWithin .clamp outer inner) := by
  simp only [evalWithin_eq]
  refine (RangePolicy.apply_agrees c _ _ ho).andThen fun w => ?_
  refine (endWithin_agrees c _ hi _ _).andThen fun start => ?_
  exact (endWithin_agrees c _ hi _ _).andThen fun stop => .covered _

theorem Surface.evalWithin_family_x {family : CurveFamily α} (h : family.outerVariable = .x)
    (policy : RangePolicy α) (x y : α) :
    (Surface.family family).evalWithin policy x y = family.evalWithin policy x y := by
  unfold evalWithin
  dsimp only
  rw [h]

theorem Surface.evalWithin_family_y {family : CurveFamily α} (h : family.outerVariable = .y)
    (policy : RangePolicy α) (x y : α) :
    (Surface.family family).evalWithin policy x y = family.evalWithin policy y x := by
  unfold evalWithin
  dsimp only
  rw [h]

theorem Surface.evalWithin_agrees (surface : Surface α) (c : α) {x y : α}
    (hx : Scalar.isNaN x = false) (hy : Scalar.isNaN y = false) :
    Agrees c (surface.evalWithin .raise x y) (surface.evalWithin (.fill c) x y)
      (surface.evalWithin .clamp x y) := by
  cases surface with
  | grid g => exact g.evalWithin_agrees c hx hy
  | family f =>
    cases hf : f.outerVariable with
    | x =>
      simp only [evalWithin_family_x hf]
      exact f.evalWithin_agrees c hx hy
    | y =>
      simp only [evalWithin_family_y hf]
      exact f.evalWithin_agrees c hy hx

end DesignChart
