import Mathlib
import DesignChart.Proofs.Chart.Accepted
import DesignChart.Proofs.Matrix.Rearranged
import DesignChart.Proofs.Raw.Program

/-!
# Construction does not break down

Step by step the program without guarantees does what the program with them does: each lookup is
made behind a check that there is an entry, each matrix is filled by rows of one length, and each
check that is made a second time succeeds, since it did so the first time. So every table has an
outcome, and it is the same one.
-/

namespace DesignChart

namespace Run

variable {ε ε' β γ δ : Type}

@[simp]
theorem found_bind (b : β) (f : β → Run ε γ) : (found (some b) >>= f) = f b := rfl

theorem ended_map (f : β → γ) (r : Except ε β) : f <$> ended r = ended (f <$> r) := by
  cases r <;> rfl

theorem adapt_ended (f : ε → ε') (r : Except ε β) : (ended r).adapt f = ended (r.mapError f) := by
  cases r <;> rfl

/-- A computation with an outcome goes on as the outcome does. -/
theorem ended_bind {r : Except ε β} {f : β → Run ε γ} {s : β → Except ε γ}
    (h : ∀ b, r = .ok b → f b = ended (s b)) : (ended r >>= f) = ended (r >>= s) := by
  cases r with
  | error e => rfl
  | ok b => exact h b rfl

/-- The same where the computation knows less of what it found than the outcome does. -/
theorem ended_map_bind {g : β → γ} {r : Except ε β} {f : γ → Run ε δ} {s : β → Except ε δ}
    (h : ∀ b, r = .ok b → f (g b) = ended (s b)) : (ended (g <$> r) >>= f) = ended (r >>= s) := by
  cases r with
  | error e => rfl
  | ok b => exact h b rfl

theorem mapM_ended {f : β → Run ε γ} {s : β → Except ε γ} (h : ∀ b, f b = ended (s b))
    (inputs : List β) : inputs.mapM f = ended (inputs.mapM s) := by
  induction inputs with
  | nil => rfl
  | cons b rest ih =>
    rw [List.mapM_cons, List.mapM_cons, h, ih]
    exact ended_bind fun c _ => ended_bind fun cs _ => rfl

end Run

open Run (ended found)

theorem minus?_of_le {n k : Nat} (h : k ≤ n) : minus? n k = some (n - k) := if_pos h

section Forget

variable {α : Type}

/-- The axis without its guarantees. -/
def Axis.raw (axis : Axis α) : RawAxis α := ⟨axis.samples, axis.reversed⟩

def Curve.raw (curve : Curve α) : RawCurve α := ⟨curve.axis.raw, curve.values⟩

def Surface.raw : Surface α → RawSurface α
  | grid g => .grid g.xAxis.raw g.yAxis.raw g.values
  | family f => .family f.outerVariable f.outer.raw (f.curves.map Curve.raw)

def Chart.raw : Chart α → RawChart α
  | curve c => .curve c.raw
  | surface s source => .surface s.raw source

def Interpolant.raw (f : Interpolant α) : RawInterpolant α := ⟨f.chart.raw, f.bounds⟩

end Forget

theorem Axis.map_reorder {α β γ : Type} (axis : Axis α) (f : β → γ) (data : Array β) :
    (axis.reorder data).map f = axis.reorder (data.map f) := by
  unfold reorder
  split
  · exact Array.map_reverse
  · rfl

namespace Matrix

variable {α : Type}

theorem ofFn?_eq_some {m : Matrix α} {f : Nat → Nat → Option α}
    (h : ∀ i j (hi : i < m.rows) (hj : j < m.columns), f i j = some (m.entry i j hi hj)) :
    ofFn? m.rows m.columns f = some m := by
  have hrow : ∀ i : Fin m.rows,
      (Vector.ofFnM fun j : Fin m.columns => f i j) = some m.entries[i] := by
    intro i
    have hentries : (fun j : Fin m.columns => f i j) = fun j => pure (m.entries[i])[j] :=
      funext fun j => h i j i.isLt j.isLt
    rw [hentries, Vector.ofFnM_pure]
    exact congrArg some (Vector.ext fun j hj => by simp)
  have hrows : (fun i : Fin m.rows => Vector.ofFnM fun j : Fin m.columns => f i j) =
      fun i => pure m.entries[i] := funext hrow
  unfold ofFn?
  rw [hrows, Vector.ofFnM_pure]
  obtain ⟨rows, columns, entries⟩ := m
  change some (Matrix.mk rows columns _) = _
  congr 2
  exact Vector.ext fun i hi => by simp

theorem rawReverseRows_eq (m : Matrix α) : m.rawReverseRows = some m.reverseRows := by
  refine ofFn?_eq_some (m := m.reverseRows) fun i j hi hj => ?_
  have hi : i < m.rows := hi
  have hentry := entry?_reverseRows m.reverseRows hi j
  rw [reverseRows_reverseRows] at hentry
  rw [minus?_of_le (by omega : 1 ≤ m.rows)]
  change (minus? (m.rows - 1) i).bind _ = _
  rw [minus?_of_le (by omega), ← entry?_eq_some m.reverseRows hi hj, ← hentry]
  rfl

theorem rawReverseColumns_eq (m : Matrix α) : m.rawReverseColumns = some m.reverseColumns := by
  refine ofFn?_eq_some (m := m.reverseColumns) fun i j hi hj => ?_
  have hj : j < m.columns := hj
  have hentry := entry?_reverseColumns m.reverseColumns i hj
  rw [reverseColumns_reverseColumns] at hentry
  rw [minus?_of_le (by omega : 1 ≤ m.columns)]
  change (minus? (m.columns - 1) j).bind _ = _
  rw [minus?_of_le (by omega), ← entry?_eq_some m.reverseColumns hi hj, ← hentry]
  rfl

/-- The two reversals on the way to a value grid find every entry. -/
theorem rawTurn_eq {ε β : Type} (m : Matrix α) (r c : Bool) (next : Matrix α → Run ε β) :
    (do
      let m ← if r then found m.rawReverseRows else pure m
      let m ← if c then found m.rawReverseColumns else pure m
      next m) = next (m.turn r c) := by
  cases r with
  | false =>
    cases c with
    | false => rfl
    | true => exact congrArg (fun n => found n >>= next) m.rawReverseColumns_eq
  | true =>
    rw [if_pos rfl, rawReverseRows_eq, Run.found_bind]
    cases c with
    | false => rfl
    | true => exact congrArg (fun n => found n >>= next) m.reverseRows.rawReverseColumns_eq

theorem shape_turn (m : Matrix α) (r c : Bool) : (m.turn r c).shape = m.shape :=
  Prod.ext (m.rows_turn r c) (m.columns_turn r c)

/-- The rows of a matrix, one after the other, fill it. -/
theorem ofRowMajor?_flatten_toRows (m : Matrix α) :
    ofRowMajor? m.rows m.columns m.toRows.flatten = some m := by
  have hflatten : m.toRows.flatten = m.entries.flatten.toArray := rfl
  unfold ofRowMajor?
  rw [hflatten, dif_pos (Vector.size_toArray _)]
  obtain ⟨rows, columns, entries⟩ := m
  congr 2
  ext i hi j hj
  have hj : j < columns := hj
  have hquotient : (i * columns + j) / columns = i := by
    rw [Nat.mul_comm, Nat.mul_add_div (by omega), Nat.div_eq_of_lt hj, Nat.add_zero]
  simp [hquotient, Nat.mod_eq_of_lt hj]

theorem rawOfRows_eq (rows : Array (Array α)) : rawOfRows rows = ended (ofRows rows) := by
  unfold rawOfRows
  have hentries : rows.toList.zipIdx =
      (List.finRange rows.size).map fun i => (rows[i], i.val) :=
    List.ext_getElem (by simp) fun i _ _ => by simp
  by_cases hpos : 0 < rows.size
  · have hragged : rows.toList.zipIdx.find? (fun entry => entry.1.size ≠ rows[0].size) =
        ((List.finRange rows.size).find? fun i => rows[i].size ≠ rows[0].size).map
          fun i => (rows[i], i.val) := by
      rw [hentries, List.find?_map]
      rfl
    rw [if_pos hpos, Array.getElem?_eq_getElem hpos, Run.found_bind, hragged]
    cases hm : ofRows rows with
    | ok m =>
      obtain ⟨hrect, hrows, hcolumns, -⟩ := ofRows_spec hm
      have hwidth := width_eq hpos
      have hnone : (List.finRange rows.size).find? (fun i => rows[i].size ≠ rows[0].size) = none := by
        refine List.find?_eq_none.mpr fun i _ => ?_
        simpa [hwidth] using hrect.size_row _ (Array.getElem_mem i.isLt)
      have hfill := ofRowMajor?_flatten_toRows m
      rw [toRows_of_ofRows hm, hrows, hcolumns, hwidth] at hfill
      rw [hnone]
      exact congrArg found hfill
    | error e =>
      unfold ofRows at hm
      rw [dif_pos hpos] at hm
      split at hm
      next i hfirst =>
        rw [hfirst]
        exact congrArg ended hm
      next => cases hm
  · unfold ofRows
    rw [if_neg hpos, dif_neg hpos]
    rfl

end Matrix

section Construction

variable {α : Type} [Scalar α]

theorem RawAxis.ofSamples_eq (samples : Array α) :
    ofSamples samples = ended (Axis.raw <$> Axis.ofSamples samples) := by
  unfold ofSamples Axis.ofSamples
  by_cases hsize : 2 ≤ samples.size
  · rw [if_pos hsize, dif_pos hsize]
    cases samples.find? (fun v => !Scalar.isFinite v) with
    | some v => rfl
    | none =>
      dsimp only
      rw [Array.getElem?_eq_getElem (by omega), Run.found_bind, Array.getElem?_eq_getElem (by omega),
        Run.found_bind]
      by_cases hfalls : samples[1] < samples[0]
      · simp only [hfalls, decide_true, if_true]
        split <;> rfl
      · simp only [hfalls, decide_false, Bool.false_eq_true, if_false]
        split <;> rfl
  · rw [if_neg hsize, dif_neg hsize]
    rfl

theorem RawAxis.adapt_ofSamples_eq (samples : Array α) (argument : String) :
    (ofSamples samples).adapt (Error.shape argument) =
      ended (Axis.raw <$> blame argument (Axis.ofSamples samples)) := by
  rw [ofSamples_eq, Run.adapt_ended, Outcome.mapError_map]
  rfl

variable [LawfulScalar α]

theorem RawCurve.ofSamples_eq (xs ys : Array α) (xName yName : String) :
    ofSamples xs ys xName yName = ended (Curve.raw <$> Curve.ofSamples xs ys xName yName) := by
  unfold ofSamples Curve.ofSamples
  rw [RawAxis.adapt_ofSamples_eq, map_bind]
  refine Run.ended_map_bind fun axis haxis => ?_
  have hn : axis.samples.size = xs.size := Axis.size_of_ofSamples (Outcome.blame_eq_ok.mp haxis)
  by_cases hsize : ys.size = axis.samples.size
  · have hvalues : axis.samples.size = (axis.reorder ys).size := by
      rw [Axis.size_reorder, hsize]
    have hchecked : axis.raw.samples.size = (axis.raw.reorder ys).size := hvalues
    rw [if_pos (hn.symm.trans hsize.symm), dif_pos hsize]
    dsimp only
    rw [if_pos hchecked]
    rfl
  · rw [if_neg fun h => hsize (h.symm.trans hn.symm), dif_neg hsize, hn]
    rfl

/-- Each row that is asked for is there. -/
theorem RawCurve.ofRows_eq (rows : Matrix α) (values : Array α) (inner : Coordinate) :
    ofRows rows values inner =
      ended (List.map Curve.raw <$> CurveFamily.rowCurves rows values inner) := by
  unfold ofRows CurveFamily.rowCurves
  rw [← List.map_coe_finRange_eq_range, List.mapM_map, ← Outcome.mapM_map]
  refine Run.mapM_ended (fun i => ?_) _
  have hrow : rows.row? i = some (rows.row i) := by
    simp [Matrix.row?, Matrix.row]
  dsimp only [Function.comp_apply]
  rw [hrow, Run.found_bind, RawCurve.ofSamples_eq, Run.adapt_ended, Outcome.mapError_map]

namespace RawSurface

omit [LawfulScalar α] in
theorem gridOf_eq (xs ys : Array α) (written : Matrix α) (o : Orientation) :
    gridOf xs ys written o =
      ended ((fun g => (Surface.grid g).raw) <$> ValueGrid.ofSamples xs ys written o) := by
  unfold gridOf ValueGrid.ofSamples
  rw [RawAxis.adapt_ofSamples_eq, RawAxis.adapt_ofSamples_eq, map_bind]
  refine Run.ended_map_bind fun xAxis _ => ?_
  rw [map_bind]
  refine Run.ended_map_bind fun yAxis _ => ?_
  by_cases hfit : (written.orient o).rows = xAxis.samples.size ∧
      (written.orient o).columns = yAxis.samples.size
  · have hshape : (written.orient o).shape = (xAxis.raw.samples.size, yAxis.raw.samples.size) :=
      Prod.ext hfit.1 hfit.2
    have hchecked := (Matrix.shape_turn (written.orient o) xAxis.reversed yAxis.reversed).trans hshape
    dsimp only
    rw [if_pos hshape, dif_pos hfit]
    refine (Matrix.rawTurn_eq (written.orient o) xAxis.reversed yAxis.reversed _).trans ?_
    rw [if_pos hchecked]
    rfl
  · have hshape : (written.orient o).shape ≠ (xAxis.raw.samples.size, yAxis.raw.samples.size) :=
      fun h => hfit (Prod.mk.inj h)
    dsimp only
    rw [if_neg hshape, dif_neg hfit]
    rfl

theorem familyOf_eq (c : Coordinate) (os : Array α) (written : Matrix α) (o : Orientation)
    (values : Array α) :
    familyOf c os written o values =
      ended ((fun f => (Surface.family f).raw) <$> CurveFamily.ofSamples c os written o values) := by
  unfold familyOf CurveFamily.ofSamples
  rw [RawAxis.adapt_ofSamples_eq, map_bind]
  refine Run.ended_map_bind fun outer _ => ?_
  by_cases hfit : (written.orient o).rows = outer.samples.size ∧
      (written.orient o).columns = values.size
  · have hshape : (written.orient o).shape = (outer.raw.samples.size, values.size) :=
      Prod.ext hfit.1 hfit.2
    have hrows := RawCurve.ofRows_eq (written.orient o) values c.other
    dsimp only
    rw [if_pos hshape, dif_pos hfit]
    split
    next curves hc =>
      rw [hc] at hrows
      rw [hrows]
      have hkept : outer.raw.reorder (curves.map Curve.raw).toArray =
          (outer.reorder curves.toArray).map Curve.raw := by
        rw [← List.map_toArray, outer.map_reorder]
        rfl
      exact congrArg (fun curves => ended (.ok (family c outer.raw curves))) hkept
    next e hc =>
      rw [hc] at hrows
      rw [hrows]
      rfl
  · have hshape : (written.orient o).shape ≠ (outer.raw.samples.size, values.size) :=
      fun h => hfit (Prod.mk.inj h)
    dsimp only
    rw [if_neg hshape, dif_neg hfit]
    rfl

end RawSurface

namespace RawChart

omit [LawfulScalar α] in
theorem gridOf_eq (xs ys : Array α) (rows : Array (Array α)) (axis : Option Nat) :
    gridOf xs ys rows axis = ended (Chart.raw <$> Chart.gridOf xs ys rows axis) := by
  unfold gridOf Chart.gridOf
  rw [map_bind]
  refine Run.ended_bind fun o _ => ?_
  rw [Matrix.rawOfRows_eq, Run.adapt_ended, map_bind]
  refine Run.ended_bind fun written _ => ?_
  rw [RawSurface.gridOf_eq, map_bind]
  exact Run.ended_map_bind fun grid _ => rfl

theorem familyOf_eq (c : Coordinate) (os : Array α) (rows : Array (Array α)) (values : Array α)
    (axis : Option Nat) :
    familyOf c os rows values axis = ended (Chart.raw <$> Chart.familyOf c os rows values axis) := by
  unfold familyOf Chart.familyOf
  rw [map_bind]
  refine Run.ended_bind fun o _ => ?_
  rw [Matrix.rawOfRows_eq, Run.adapt_ended, map_bind]
  refine Run.ended_bind fun written _ => ?_
  rw [RawSurface.familyOf_eq, map_bind]
  exact Run.ended_map_bind fun family _ => rfl

theorem curveOf_eq (x y : Readings α) (axis : Option Nat) :
    curveOf x y axis = ended (Curve.raw <$> Chart.curveOf x y axis) := by
  unfold curveOf Chart.curveOf
  rw [map_bind]
  refine Run.ended_bind fun _ _ => ?_
  rw [map_bind]
  refine Run.ended_bind fun xs _ => ?_
  rw [map_bind]
  exact Run.ended_bind fun ys _ => RawCurve.ofSamples_eq xs ys "x" "y"

/-- Every three arguments have an outcome, the chart of them or the error. -/
theorem ofReadings_eq (x y : Readings α) (z : Option (Readings α)) (axis : Option Nat) :
    ofReadings x y z axis = ended (Chart.raw <$> Chart.ofReadings x y z axis) := by
  cases z with
  | none =>
    change curve <$> curveOf x y axis = ended (Chart.raw <$> Chart.curve <$> Chart.curveOf x y axis)
    rw [curveOf_eq, Run.ended_map]
    cases Chart.curveOf x y axis <;> rfl
  | some z =>
    cases x with
    | vector xs =>
      cases y with
      | vector ys =>
        cases z with
        | vector zs => rfl
        | grid rows => exact gridOf_eq xs ys rows axis
      | grid rows =>
        cases z with
        | vector zs => exact familyOf_eq .x xs rows zs axis
        | grid _ => rfl
    | grid rows =>
      cases y with
      | vector ys =>
        cases z with
        | vector zs => exact familyOf_eq .y ys rows zs axis
        | grid _ => rfl
      | grid _ => cases z <;> rfl

end RawChart

namespace RawInterpolant

theorem build_eq (x y : Readings α) (z : Option (Readings α)) (options : Options α) :
    build x y z options = ended (Interpolant.raw <$> Interpolant.build x y z options) := by
  unfold build Interpolant.build
  rw [RawChart.ofReadings_eq, map_bind]
  exact Run.ended_map_bind fun chart _ => rfl

/-- The entries of a dictionary, which is built of them once there are all. -/
theorem buildEntries_eq (x y : Input (Readings α)) (z : Option (Input (Readings α)))
    (options : Options α) :
    buildEntries x y z options = ended (do
      let keys ← Dictionary.commonKeys ((x :: y :: z.toList).filterMap Input.keys?)
      List.map (Prod.map id Interpolant.raw) <$>
        (keys.getD [Key.unit]).mapM (Dictionary.buildEntry x y z options)) := by
  unfold buildEntries
  refine Run.ended_bind fun keys _ => ?_
  rw [← Outcome.mapM_map]
  refine Run.mapM_ended (fun key => ?_) _
  unfold Dictionary.buildEntry
  rw [map_bind]
  refine Run.ended_bind fun x' _ => ?_
  rw [map_bind]
  refine Run.ended_bind fun y' _ => ?_
  have hbuilt : ∀ z' : Option (Readings α),
      ((build x' y' z' options).adapt (Error.keyBuild key) >>= fun f => pure (key, f)) =
        ended (Prod.map id Interpolant.raw <$>
          ((Interpolant.build x' y' z' options).mapError (.keyBuild key) >>= fun f =>
            .ok (key, f))) := by
    intro z'
    rw [build_eq, Run.adapt_ended, Outcome.mapError_map, map_bind]
    exact Run.ended_map_bind fun f _ => rfl
  cases z with
  | none => exact hbuilt none
  | some z =>
    dsimp only
    rw [Run.ended_map, map_bind]
    exact Run.ended_bind fun z' _ => hbuilt z'

end RawInterpolant

end Construction

end DesignChart
