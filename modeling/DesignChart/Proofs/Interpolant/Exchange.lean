import Mathlib
import DesignChart.Proofs.Chart.Exchange
import DesignChart.Proofs.Interpolant.NoNumber
import DesignChart.Proofs.Interpolant.Orientation
import DesignChart.Proofs.Scalar.Exact

/-!
# Tables with their two variables exchanged

To exchange the two variables of a table is to exchange the coordinates of its answers. A family
does the same computations on the same numbers either way, so that it answers to the last bit what
it did, and refuses in the same words but for the names. A value grid blends along the other
variable first, which is the same in exact arithmetic only.
-/

namespace DesignChart

open Admission (andThen)
open Outcome (Blaming FailsOnly)

section Family

variable {α : Type} [Scalar α]

omit [Scalar α] in
theorem exchanged_andThen (reading : Except (Error α) (Admission α))
    (next : α → Except (Error α) (Admission α)) :
    exchanged (andThen reading next) = andThen (exchanged reading) fun v => exchanged (next v) := by
  cases reading with
  | error e => rfl
  | ok admission => cases admission <;> rfl

theorem RangePolicy.apply_exchangeName (policy : RangePolicy α) (name : String)
    (range : Interval α) (v : α) :
    policy.apply (exchangeName name) range v = exchanged (policy.apply name range v) := by
  unfold apply
  split
  · rfl
  · split
    · rfl
    · cases policy <;> rfl

theorem Curve.evalWithin_other (curve : Curve α) (policy : RangePolicy α) (c : Coordinate)
    (v : α) : curve.evalWithin policy c.other v = exchanged (curve.evalWithin policy c v) := by
  unfold evalWithin
  rw [Coordinate.name_other, RangePolicy.apply_exchangeName, exchanged_map]

theorem CurveFamily.endWithin_other (policy : RangePolicy α) (inner : Coordinate) (v : α)
    (weighted : Bool) (curve : Curve α) :
    endWithin policy inner.other v weighted curve =
      exchanged (endWithin policy inner v weighted curve) := by
  cases weighted with
  | false => rfl
  | true => exact curve.evalWithin_other policy inner v

/-- A family is read alike over either variable. -/
theorem CurveFamily.evalWithin_exchange (family : CurveFamily α) (policy : RangePolicy α)
    (w v : α) : family.exchange.evalWithin policy w v = exchanged (family.evalWithin policy w v) := by
  rw [evalWithin_eq, evalWithin_eq, exchanged_andThen]
  refine congrArg₂ andThen ?_ (funext fun u => ?_)
  · change policy.apply family.outerVariable.other.name family.outer.range w = _
    rw [Coordinate.name_other, RangePolicy.apply_exchangeName]
  · unfold readWithin
    rw [exchanged_andThen]
    refine congrArg₂ andThen (endWithin_other policy _ v _ _) (funext fun start => ?_)
    rw [exchanged_andThen]
    exact congrArg₂ andThen (endWithin_other policy _ v _ _) rfl

theorem Surface.evalWithin_exchange (family : CurveFamily α) (policy : RangePolicy α) (a b : α) :
    (Surface.family family.exchange).evalWithin policy b a =
      exchanged ((Surface.family family).evalWithin policy a b) := by
  cases hc : family.outerVariable with
  | x =>
    have hother : family.exchange.outerVariable = .y := congrArg Coordinate.other hc
    rw [evalWithin_family_x hc, evalWithin_family_y hother, family.evalWithin_exchange]
  | y =>
    have hother : family.exchange.outerVariable = .x := congrArg Coordinate.other hc
    rw [evalWithin_family_y hc, evalWithin_family_x hother, family.evalWithin_exchange]

omit [Scalar α] in
theorem CurveFamily.outerVariable_exchange (family : CurveFamily α) :
    family.exchange.outerVariable = family.outerVariable.other := rfl

theorem Surface.domain_exchange (family : CurveFamily α) :
    (Surface.family family.exchange).domain = (Surface.family family).domain.reverse := by
  unfold domain
  simp only [CurveFamily.outerVariable_exchange]
  cases family.outerVariable <;> rfl

theorem CurveFamily.blaming_ofSamples (c : Coordinate) (os : Array α) (written : Matrix α)
    (o : Orientation) (values : Array α) : Blaming (ofSamples c os written o values) := by
  intro e he
  have halike := ofSamples_alike c os values (rfl : written.orient o = written.orient o)
  rw [he] at halike
  cases halike with
  | refused argument fault other => exact ⟨argument, fault, rfl⟩

theorem Chart.blaming_familyOf (c : Coordinate) (os : Array α) (rows : Array (Array α))
    (zs : Array α) (axis : Option Nat) : Blaming (familyOf c os rows zs axis) := by
  refine .bind ?_ fun o => .bind (Blaming.blame _ _) fun written => ?_
  · unfold orientationOf
    split
    · exact .ok _
    · exact .error ⟨_, _, rfl⟩
  · exact .bind (CurveFamily.blaming_ofSamples c os written o zs) fun family => .ok _

end Family

section Grid

variable {α : Type} [Scalar α]

omit [Scalar α] in
theorem ValueGrid.valueAt_exchange (grid : ValueGrid α) (i : Fin grid.xAxis.samples.size)
    (j : Fin grid.yAxis.samples.size) : grid.exchange.valueAt j i = grid.valueAt i j := by
  simp [valueAt, exchange, Matrix.entry, Matrix.transpose]

/-- The two ways to blend four values agree. -/
theorem ValueGrid.eval_exchange (grid : ValueGrid Exact) (p q : Exact) :
    grid.exchange.eval q p = grid.eval p q := by
  rw [eval_eq_read, eval_eq_read]
  change (grid.xAxis.locate p).read (fun i =>
    (grid.yAxis.locate q).read (fun j => grid.exchange.valueAt j i) q) p = _
  simp only [valueAt_exchange]
  exact Exact.blend_blend _ _ _ _ _ _

/-- Both are answered with the same value, or both are refused as out of range. -/
inductive AnswersAlike : Except (Error α) α → Except (Error α) α → Prop
  | answered (v : α) : AnswersAlike (.ok v) (.ok v)
  | refused (e e' : Error α) (he : e.Refuses) (he' : e'.Refuses) :
      AnswersAlike (.error e) (.error e')

omit [Scalar α] in
theorem Error.Refuses.exchange {e : Error α} (he : e.Refuses) : e.exchange.Refuses := by
  obtain ⟨name, v, range, rfl⟩ := he
  exact ⟨exchangeName name, v, range, rfl⟩

theorem ValueGrid.evalWithin_exchange (grid : ValueGrid Exact) (policy : RangePolicy Exact)
    (p q : Exact) :
    AnswersAlike (Admission.value <$> grid.evalWithin policy p q)
      (Admission.value <$> grid.exchange.evalWithin policy q p) := by
  have hx := policy.apply_refuses "x" grid.xAxis.range p
  have hy := policy.apply_refuses "y" grid.yAxis.range q
  have hfill : ∀ c c', policy.apply "x" grid.xAxis.range p = .ok (.answered c) →
      policy.apply "y" grid.yAxis.range q = .ok (.answered c') → c = c' := by
    intro c c' hc hc'
    obtain ⟨rfl, -⟩ := RangePolicy.apply_eq_answered_iff.mp hc
    exact RangePolicy.fill.inj (RangePolicy.apply_eq_answered_iff.mp hc').1
  have hx' : policy.apply "y" grid.exchange.yAxis.range p =
      exchanged (policy.apply "x" grid.xAxis.range p) := policy.apply_exchangeName "x" _ p
  have hy' : policy.apply "x" grid.exchange.xAxis.range q =
      exchanged (policy.apply "y" grid.yAxis.range q) := policy.apply_exchangeName "y" _ q
  have heval := grid.eval_exchange
  unfold evalWithin
  rw [hx', hy']
  generalize policy.apply "x" grid.xAxis.range p = xs at hx hfill ⊢
  generalize policy.apply "y" grid.yAxis.range q = ys at hy hfill ⊢
  cases xs with
  | error e =>
    have he := hx e rfl
    cases ys with
    | error e' => exact .refused _ _ he (hy e' rfl).exchange
    | ok b => exact .refused _ _ he he.exchange
  | ok a =>
    cases ys with
    | error e' => cases a <;> exact .refused _ _ (hy e' rfl) (hy e' rfl).exchange
    | ok b =>
      cases a with
      | inside u =>
        cases b with
        | inside w =>
          change AnswersAlike (.ok (grid.eval u w)) (.ok (grid.exchange.eval w u))
          rw [heval]
          exact .answered _
        | answered c => exact .answered c
      | answered c =>
        cases b with
        | inside w => exact .answered c
        | answered c' =>
          obtain rfl := hfill c c' rfl rfl
          exact .answered c

end Grid

namespace Interpolant

variable {α : Type} [Scalar α]

/-- One of two tables is accepted if the other is, or they are refused for the same fault of
arguments that correspond. The accepted ones answer alike at exchanged coordinates. -/
structure ExchangedAnswers (built other : Except (Error α) (Interpolant α)) : Prop where
  accepted : (∃ f, built = .ok f) ↔ ∃ g, other = .ok g
  refused : ∀ e, built = .error e → ∃ argument fault, e = .shape argument fault ∧
    other = .error (.shape (exchangeName argument) fault.exchange)
  domain : ∀ f g, built = .ok f → other = .ok g → g.chart.domain = f.chart.domain.reverse
  eval : ∀ f g, built = .ok f → other = .ok g → ∀ a b, g.eval [b, a] = exchanged (f.eval [a, b])

/-- One of two tables is accepted if the other is, and they then answer with the same numbers at
exchanged coordinates, or refuse both. -/
structure AgreedAnswers (built other : Except (Error α) (Interpolant α)) : Prop where
  accepted : (∃ f, built = .ok f) ↔ ∃ g, other = .ok g
  eval : ∀ f g, built = .ok f → other = .ok g → ∀ p q, AnswersAlike (f.eval [p, q]) (g.eval [q, p])

theorem ExchangedAnswers.of_charts {built other : Except (Error α) (Chart α)}
    (hblaming : Blaming built) (hother : other = Chart.exchange <$> exchanged built)
    (hfamily : ∀ chart, built = .ok chart →
      ∃ family source, chart = .surface (.family family) source)
    (policy : RangePolicy α) :
    ExchangedAnswers ((fun chart => (⟨chart, policy⟩ : Interpolant α)) <$> built)
      ((fun chart => (⟨chart, policy⟩ : Interpolant α)) <$> other) := by
  subst hother
  cases built with
  | error e =>
    obtain ⟨argument, fault, rfl⟩ := hblaming e rfl
    refine ⟨⟨nofun, nofun⟩, fun e he => ?_, fun f g hf => ?_, fun f g hf => ?_⟩
    · cases he
      exact ⟨argument, fault, rfl, rfl⟩
    · cases hf
    · cases hf
  | ok chart =>
    obtain ⟨family, source, rfl⟩ := hfamily chart rfl
    refine ⟨⟨fun _ => ⟨_, rfl⟩, fun _ => ⟨_, rfl⟩⟩, nofun, fun f g hf hg => ?_,
      fun f g hf hg a b => ?_⟩
    · obtain rfl := Except.ok.inj hf
      obtain rfl := Except.ok.inj hg
      exact Surface.domain_exchange family
    · obtain rfl := Except.ok.inj hf
      obtain rfl := Except.ok.inj hg
      change Admission.value <$> (Surface.family family.exchange).evalWithin policy b a =
        exchanged (Admission.value <$> (Surface.family family).evalWithin policy a b)
      rw [Surface.evalWithin_exchange, exchanged_map]

theorem build_family_exchange (rows : Array (Array α)) (os zs : Array α) (options : Options α) :
    ExchangedAnswers (build (.grid rows) (.vector os) (some (.vector zs)) options)
      (build (.vector os) (.grid rows) (some (.vector zs)) options) := by
  refine .of_charts (Chart.blaming_familyOf .y os rows zs options.axis)
    (Chart.familyOf_exchange .y os rows zs options.axis) (fun chart h => ?_) options.bounds
  obtain ⟨family, o, hchart, -⟩ := Chart.exists_lines_of_familyOf h
  exact ⟨family, _, hchart⟩

/-- The grid of values is taken the other way round when the two vectors change places. -/
theorem build_grid_exchange {x y : Readings α} {rows : Array (Array α)} {o : Orientation}
    {policy : RangePolicy α} {f : Interpolant α}
    (h : build x y (some (.grid rows)) ⟨some o.axis, policy⟩ = .ok f) :
    ∃ grid source, f = ⟨.surface (.grid grid) source, policy⟩ ∧
      build y x (some (.grid rows)) ⟨some o.other.axis, policy⟩ = .ok ⟨f.chart.exchange, policy⟩ := by
  obtain ⟨chart, bounds⟩ := f
  obtain ⟨hchart, hbounds⟩ := build_eq_ok_iff.mp h
  obtain rfl : bounds = policy := hbounds
  rcases Chart.ofReadings_surface_eq_ok_iff.mp hchart with
    ⟨xs, ys, _, rfl, rfl, hz, hg⟩ | ⟨_, _, _, _, _, hz, _⟩ | ⟨_, _, _, _, _, hz, _⟩
  · obtain rfl := Readings.grid.inj hz
    obtain ⟨o', written, grid, -, -, -, rfl⟩ := Chart.gridOf_eq_ok_iff.mp hg
    exact ⟨grid, _, rfl, build_eq_ok_iff.mpr ⟨Chart.gridOf_exchange hg, rfl⟩⟩
  · cases hz
  · cases hz

theorem exists_build_grid_iff (x y : Readings α) (rows : Array (Array α)) (o : Orientation)
    (policy : RangePolicy α) :
    (∃ f, build x y (some (.grid rows)) ⟨some o.axis, policy⟩ = .ok f) ↔
      ∃ g, build y x (some (.grid rows)) ⟨some o.other.axis, policy⟩ = .ok g := by
  constructor
  · rintro ⟨f, hf⟩
    obtain ⟨_, _, -, hg⟩ := build_grid_exchange hf
    exact ⟨_, hg⟩
  · rintro ⟨g, hg⟩
    obtain ⟨_, _, -, hf⟩ := build_grid_exchange hg
    rw [o.other_other] at hf
    exact ⟨_, hf⟩

theorem build_grid_agrees (x y : Readings Exact) (rows : Array (Array Exact)) (o : Orientation)
    (policy : RangePolicy Exact) :
    AgreedAnswers (build x y (some (.grid rows)) ⟨some o.axis, policy⟩)
      (build y x (some (.grid rows)) ⟨some o.other.axis, policy⟩) := by
  refine ⟨exists_build_grid_iff x y rows o policy, fun f g hf hg p q => ?_⟩
  obtain ⟨grid, source, rfl, hg'⟩ := build_grid_exchange hf
  obtain rfl := Except.ok.inj (hg'.symm.trans hg)
  exact grid.evalWithin_exchange policy p q

/-- Exchanging the two independent variables of a table exchanges the coordinates of its answers: of
a family to the last bit, with the same errors but for the names, and of a value grid, which is then
taken the other way round, in exact arithmetic. -/
theorem build_exchanged :
    (∀ (rows : Array (Array Float)) (os zs : Array Float) (options : Options Float),
      ExchangedAnswers (build (.grid rows) (.vector os) (some (.vector zs)) options)
        (build (.vector os) (.grid rows) (some (.vector zs)) options)) ∧
    (∀ (x y : Readings Float) (rows : Array (Array Float)) (a : Fin 2) (policy : RangePolicy Float),
      (∃ f, build x y (some (.grid rows)) ⟨some a.val, policy⟩ = .ok f) ↔
        ∃ g, build y x (some (.grid rows)) ⟨some (1 - a.val), policy⟩ = .ok g) ∧
    ∀ (x y : Readings Exact) (rows : Array (Array Exact)) (a : Fin 2) (policy : RangePolicy Exact),
      AgreedAnswers (build x y (some (.grid rows)) ⟨some a.val, policy⟩)
        (build y x (some (.grid rows)) ⟨some (1 - a.val), policy⟩) := by
  have haxis : ∀ a : Fin 2, ∃ o : Orientation, a.val = o.axis ∧ 1 - a.val = o.other.axis := by
    intro a
    match a with
    | 0 => exact ⟨.asWritten, rfl, rfl⟩
    | 1 => exact ⟨.transposed, rfl, rfl⟩
  refine ⟨build_family_exchange, fun x y rows a policy => ?_, fun x y rows a policy => ?_⟩
  · obtain ⟨o, ha, ha'⟩ := haxis a
    rw [ha', ha]
    exact exists_build_grid_iff x y rows o policy
  · obtain ⟨o, ha, ha'⟩ := haxis a
    rw [ha', ha]
    exact build_grid_agrees x y rows o policy

end Interpolant

end DesignChart
