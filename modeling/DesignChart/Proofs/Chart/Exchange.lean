import Mathlib
import DesignChart.Chart
import DesignChart.Proofs.Chart.Accepted
import DesignChart.Proofs.Matrix.Rearranged

/-!
# Charts with their two variables exchanged

Which of the two variables selects the curve of a family is told by the arguments, and `x` and `y`
are otherwise treated alike: with the arguments exchanged the same family is built, over the other
variable, or the same fault is found, under the other name. A value grid is read along `x` first,
so that exchanging its variables transposes it, and of two bad axes the other one may be blamed.
-/

namespace DesignChart

section Names

/-- The argument with `x` and `y` exchanged. -/
def Argument.exchange : Argument → Argument
  | .x => .y
  | .y => .x
  | .z => .z

/-- The name of an argument with `x` and `y` exchanged; other names stay. -/
def exchangeName (name : String) : String :=
  if name = "x" then "y" else if name = "y" then "x" else name

theorem Argument.name_exchange (a : Argument) : a.exchange.name = exchangeName a.name := by
  cases a <;> decide

theorem Coordinate.argument_other (c : Coordinate) : c.other.argument = c.argument.exchange := by
  cases c <;> rfl

theorem Coordinate.name_other (c : Coordinate) : c.other.name = exchangeName c.name := by
  cases c <;> decide

variable {α β γ : Type}

/-- The fault as it is told of the exchanged arguments. -/
def Fault.exchange : Fault α → Fault α
  | .unpaired partner expected got => .unpaired (exchangeName partner) expected got
  | .noSuchAxisOfGrid axis argument => .noSuchAxisOfGrid axis argument.exchange
  | .severalGrids arguments => .severalGrids (arguments.map Argument.exchange)
  | .gridMismatch shape rowArgument columnArgument expected orientation =>
    .gridMismatch shape rowArgument.exchange columnArgument.exchange expected orientation
  | .inRow row fault => .inRow row fault.exchange
  | fault => fault

/-- The error as it is told of the exchanged arguments. -/
def Error.exchange : Error α → Error α
  | .shape argument fault => .shape (exchangeName argument) fault.exchange
  | .outOfDomain name v range => .outOfDomain (exchangeName name) v range
  | .keyBuild key cause => .keyBuild key cause.exchange
  | error => error

theorem Error.inRow_exchange (row : Nat) (e : Error α) :
    e.exchange.inRow row = (e.inRow row).exchange := by
  cases e <;> rfl

/-- What becomes of an outcome when `x` and `y` are exchanged in its error. -/
def exchanged (x : Except (Error α) β) : Except (Error α) β := x.mapError Error.exchange

theorem exchanged_bind (x : Except (Error α) β) (f : β → Except (Error α) γ) :
    exchanged (x >>= f) = exchanged x >>= fun b => exchanged (f b) := by
  cases x <;> rfl

theorem exchanged_map (x : Except (Error α) β) (f : β → γ) :
    exchanged (f <$> x) = f <$> exchanged x :=
  Outcome.mapError_map Error.exchange f x

theorem mapM_exchanged (f : β → Except (Error α) γ) (inputs : List β) :
    inputs.mapM (fun b => exchanged (f b)) = exchanged (inputs.mapM f) := by
  induction inputs with
  | nil => rfl
  | cons b rest ih =>
    rw [List.mapM_cons, List.mapM_cons, ih, exchanged_bind]
    refine congrArg _ (funext fun c => ?_)
    rw [exchanged_bind]
    rfl

theorem inRow_exchanged (row : Nat) (x : Except (Error α) β) :
    (exchanged x).mapError (Error.inRow row) = exchanged (x.mapError (Error.inRow row)) := by
  cases x with
  | ok b => rfl
  | error e => exact congrArg Except.error (e.inRow_exchange row)

/-- A fault that names no argument is told of either name. -/
theorem blame_exchangeName {x : Except (Fault α) β}
    (h : Outcome.FailsOnly (fun fault => fault.exchange = fault) x) (argument : String) :
    blame (exchangeName argument) x = exchanged (blame argument x) := by
  cases x with
  | ok b => rfl
  | error fault => exact congrArg (fun f => Except.error (Error.shape _ f)) (h fault rfl).symm

end Names

variable {α : Type}

theorem Matrix.ofRows_faults (rows : Array (Array α)) :
    Outcome.FailsOnly (fun fault => fault.exchange = fault) (ofRows rows) := by
  unfold ofRows
  split
  · split
    · exact .error rfl
    · exact .ok _
  · exact .error rfl

variable [Scalar α]

theorem Axis.ofSamples_faults (samples : Array α) :
    Outcome.FailsOnly (fun fault => fault.exchange = fault) (ofSamples samples) := by
  unfold ofSamples
  split
  · split
    · exact .error rfl
    · split
      · split
        · exact .ok _
        · exact .error rfl
      · split
        · exact .ok _
        · exact .error rfl
  · exact .error rfl

theorem Curve.ofSamples_exchange (xs ys : Array α) (xName : String) :
    ofSamples xs ys (exchangeName xName) "z" = exchanged (ofSamples xs ys xName "z") := by
  unfold ofSamples
  rw [blame_exchangeName (Axis.ofSamples_faults xs), exchanged_bind]
  refine congrArg _ (funext fun axis => ?_)
  split
  · rfl
  · rfl

namespace CurveFamily

/-- The family with its variables exchanged. -/
def exchange (family : CurveFamily α) : CurveFamily α :=
  { family with outerVariable := family.outerVariable.other }

theorem rowCurves_exchange (rows : Matrix α) (values : Array α) (inner : Coordinate) :
    rowCurves rows values inner.other = exchanged (rowCurves rows values inner) := by
  unfold rowCurves
  rw [← mapM_exchanged]
  refine congrArg (List.mapM · _) (funext fun i => ?_)
  rw [Coordinate.name_other, Curve.ofSamples_exchange, inRow_exchanged]

theorem ofSamples_exchange (c : Coordinate) (os : Array α) (written : Matrix α) (o : Orientation)
    (values : Array α) :
    ofSamples c.other os written o values =
      exchange <$> exchanged (ofSamples c os written o values) := by
  unfold ofSamples
  rw [Coordinate.name_other c, blame_exchangeName (Axis.ofSamples_faults os), ← exchanged_map,
    map_bind, exchanged_bind]
  refine congrArg _ (funext fun outer => ?_)
  dsimp only
  have hcurves := rowCurves_exchange (written.orient o) values c.other
  by_cases hfit : (written.orient o).rows = outer.samples.size ∧
      (written.orient o).columns = values.size
  · rw [dif_pos hfit, dif_pos hfit]
    split
    next curves hc =>
      split
      next curves' hc' =>
        rw [hc'] at hcurves
        obtain rfl := Except.ok.inj (hc.symm.trans hcurves)
        rfl
      next e hc' =>
        rw [hc'] at hcurves
        cases hc.symm.trans hcurves
    next e hc =>
      split
      next curves' hc' =>
        rw [hc'] at hcurves
        cases hc.symm.trans hcurves
      next e' hc' =>
        rw [hc'] at hcurves
        exact congrArg Except.error (Except.error.inj (hc.symm.trans hcurves))
  · rw [dif_neg hfit, dif_neg hfit]
    refine congrArg Except.error ?_
    cases c <;> rfl

end CurveFamily

namespace ValueGrid

/-- The value grid with its variables exchanged. -/
def exchange (grid : ValueGrid α) : ValueGrid α where
  xAxis := grid.yAxis
  yAxis := grid.xAxis
  values := grid.values.transpose
  rows_values := grid.columns_values
  columns_values := grid.rows_values

end ValueGrid

/-- The other way to write a grid. -/
def Orientation.other : Orientation → Orientation
  | .asWritten => .transposed
  | .transposed => .asWritten

theorem Orientation.other_other (o : Orientation) : o.other.other = o := by
  cases o <;> rfl

theorem Matrix.orient_other {β : Type} (m : Matrix β) (o : Orientation) :
    m.orient o.other = (m.orient o).transpose := by
  cases o with
  | asWritten => rfl
  | transposed => exact m.transpose_transpose.symm

theorem ValueGrid.ofSamples_exchange {xs ys : Array α} {written : Matrix α} {o : Orientation}
    {grid : ValueGrid α} (h : ofSamples xs ys written o = .ok grid) :
    ofSamples ys xs written o.other = .ok grid.exchange := by
  obtain ⟨hx, hy, hs, hkept⟩ := ofSamples_eq_ok_iff.mp h
  obtain ⟨hrows, hcolumns⟩ := Prod.mk.inj hs
  refine ofSamples_eq_ok_iff.mpr ⟨hy, hx, ?_, ?_⟩
  · rw [Matrix.orient_other]
    exact Prod.ext hcolumns hrows
  · rw [Matrix.orient_other]
    change grid.values.transpose = _
    rw [hkept, Matrix.transpose_turn]
    rfl

namespace Chart

omit [Scalar α] in
theorem orientationOf_exchange (argument : Argument) (axis : Option Nat) :
    orientationOf (α := α) argument.exchange axis = exchanged (orientationOf argument axis) := by
  unfold orientationOf
  split <;> rfl

/-- The chart with its variables exchanged. The grid of a value grid is then written the other way
round, and that of a family is given for the other argument. -/
def exchange : Chart α → Chart α
  | curve c => curve c
  | surface (.grid g) source =>
    surface (.grid g.exchange) { source with orientation := source.orientation.other }
  | surface (.family f) source =>
    surface (.family f.exchange) { source with argument := source.argument.exchange }

/-- The chart of a family over the other variable. -/
theorem familyOf_exchange (c : Coordinate) (os : Array α) (rows : Array (Array α)) (zs : Array α)
    (axis : Option Nat) :
    familyOf c.other os rows zs axis = exchange <$> exchanged (familyOf c os rows zs axis) := by
  unfold familyOf
  simp only [c.other.argument_other, orientationOf_exchange, Argument.name_exchange,
    blame_exchangeName (Matrix.ofRows_faults rows), CurveFamily.ofSamples_exchange, exchanged_bind,
    map_bind]
  refine congrArg _ (funext fun orientation => congrArg _ (funext fun written => ?_))
  cases CurveFamily.ofSamples c os written orientation zs <;> rfl

theorem gridOf_exchange {xs ys : Array α} {rows : Array (Array α)} {o : Orientation}
    {chart : Chart α} (h : gridOf xs ys rows (some o.axis) = .ok chart) :
    gridOf ys xs rows (some o.other.axis) = .ok chart.exchange := by
  obtain ⟨o', written, grid, ho, hw, hs, rfl⟩ := gridOf_eq_ok_iff.mp h
  have hto := (orientationOf_eq_ok_iff.mp ho).2
  obtain rfl : o' = o := by cases o <;> cases o' <;> simp [Orientation.axis] at hto ⊢
  have hother : orientationOf (α := α) .z (some o'.other.axis) = .ok o'.other := by
    cases o' <;> rfl
  exact gridOf_eq_ok_iff.mpr
    ⟨o'.other, written, grid.exchange, hother, hw, ValueGrid.ofSamples_exchange hs, rfl⟩

end Chart

end DesignChart
