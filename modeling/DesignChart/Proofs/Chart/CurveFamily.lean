import Mathlib
import DesignChart.CurveFamily
import DesignChart.Proofs.Chart.Curve
import DesignChart.Proofs.Matrix.Entries

/-!
# Families of curves from the numbers supplied

A family is accepted when its outer samples make an axis and every row of its grid, turned with the
outer variable along the rows, makes a curve with the shared values. Each outer sample keeps its
curve.
-/

namespace DesignChart.CurveFamily

variable {α : Type} [Scalar α]

/-- The curve kept beside outer sample `i`. -/
def curveAt (family : CurveFamily α) (i : Fin family.outer.samples.size) : Curve α :=
  have := family.size_curves
  family.curves[i.val]

omit [Scalar α] in
theorem forall_curves_iff {family : CurveFamily α} {P : Curve α → Prop} :
    (∀ curve ∈ family.curves, P curve) ↔ ∀ i, P (family.curveAt i) := by
  constructor
  · intro h i
    exact h _ (Array.getElem_mem (family.size_curves.symm ▸ i.isLt))
  · intro h curve hm
    obtain ⟨i, hi, rfl⟩ := Array.mem_iff_getElem.mp hm
    exact h ⟨i, family.size_curves ▸ hi⟩

theorem rowCurves_eq_ok_iff {rows : Matrix α} {values : Array α} {inner : Coordinate}
    {curves : List (Curve α)} :
    rowCurves rows values inner = .ok curves ↔
      List.Forall₂ (fun i curve => Curve.ofSamples (rows.row i) values inner.name "z" = .ok curve)
        (List.finRange rows.rows) curves := by
  unfold rowCurves
  simp only [Outcome.mapM_eq_ok, Outcome.mapError_eq_ok]

theorem getElem?_rowCurves {rows : Matrix α} {values : Array α} {inner : Coordinate}
    {curves : List (Curve α)} (h : rowCurves rows values inner = .ok curves) (i : Fin rows.rows) :
    ∃ curve, curves[i.val]? = some curve ∧
      Curve.ofSamples (rows.row i) values inner.name "z" = .ok curve := by
  have hlength := length_rowCurves h
  have hi : i.val < curves.length := by omega
  refine ⟨curves[i.val], List.getElem?_eq_getElem hi, ?_⟩
  have hrow := (rowCurves_eq_ok_iff.mp h).get (by simp) hi
  simpa using hrow

theorem exists_rowCurves_iff {rows : Matrix α} {values : Array α} {inner : Coordinate} :
    (∃ curves, rowCurves rows values inner = .ok curves) ↔
      ∀ i, ∃ curve, Curve.ofSamples (rows.row i) values inner.name "z" = .ok curve := by
  constructor
  · rintro ⟨curves, h⟩ i
    obtain ⟨curve, -, hcurve⟩ := getElem?_rowCurves h i
    exact ⟨curve, hcurve⟩
  · intro h
    choose curve hcurve using h
    refine ⟨(List.finRange rows.rows).map curve, rowCurves_eq_ok_iff.mpr ?_⟩
    rw [List.forall₂_map_right_iff]
    exact List.forall₂_same.mpr fun i _ => hcurve i

theorem ofSamples_eq_ok_iff {c : Coordinate} {os : Array α} {written : Matrix α} {o : Orientation}
    {values : Array α} {family : CurveFamily α} :
    ofSamples c os written o values = .ok family ↔
      family.outerVariable = c ∧ Axis.ofSamples os = .ok family.outer ∧
        (written.orient o).shape = (family.outer.samples.size, values.size) ∧
        ∃ curves, rowCurves (written.orient o) values c.other = .ok curves ∧
          family.curves = family.outer.reorder curves.toArray := by
  obtain ⟨outerVariable, outer, kept, hsize⟩ := family
  unfold ofSamples
  simp only [Outcome.bind_eq_ok, Outcome.blame_eq_ok]
  constructor
  · rintro ⟨outer', houter, h⟩
    split at h
    next hs =>
      split at h
      next curves hc =>
        obtain ⟨rfl, rfl, rfl⟩ := CurveFamily.mk.inj (Except.ok.inj h)
        exact ⟨rfl, houter, Prod.ext hs.1 hs.2, curves, hc, rfl⟩
      next => cases h
    next => cases h
  · rintro ⟨rfl, houter, hs, curves, hc, rfl⟩
    refine ⟨outer, houter, ?_⟩
    rw [dif_pos (Prod.mk.inj hs)]
    split
    next curves' hc' =>
      obtain rfl := Except.ok.inj (hc.symm.trans hc')
      rfl
    next e hc' => exact absurd (hc.symm.trans hc') (by simp)

/-- The curve of outer sample `i` runs through row `i`. -/
theorem curve_place {c : Coordinate} {os : Array α} {written : Matrix α} {o : Orientation}
    {values : Array α} {family : CurveFamily α} (h : ofSamples c os written o values = .ok family)
    (i : Fin family.outer.samples.size) (hi : i.val < (written.orient o).rows) :
    Curve.ofSamples ((written.orient o).row ⟨i, hi⟩) values c.other.name "z" =
      .ok (family.curveAt (family.outer.place i)) := by
  obtain ⟨-, -, hs, curves, hc, hkept⟩ := ofSamples_eq_ok_iff.mp h
  have hrows : (written.orient o).rows = family.outer.samples.size := (Prod.mk.inj hs).1
  have hsize : curves.toArray.size = family.outer.samples.size :=
    (length_rowCurves hc).trans hrows
  obtain ⟨curve, hcurve, hrow⟩ := getElem?_rowCurves hc ⟨i, hi⟩
  have hplace := Axis.getElem?_reorder_place hsize i
  have hget : curves.toArray[i.val]? = some curve := List.getElem?_toArray.trans hcurve
  rw [← hkept, hget] at hplace
  obtain ⟨_, hget⟩ := Array.getElem?_eq_some_iff.mp hplace
  rw [hrow]
  exact congrArg Except.ok hget.symm

/-- A family is given by its outer axis and a curve for each row. -/
theorem ofSamples_eq_ok_iff_curves {c : Coordinate} {os : Array α} {written : Matrix α}
    {o : Orientation} {values : Array α} {family : CurveFamily α} :
    ofSamples c os written o values = .ok family ↔
      family.outerVariable = c ∧ Axis.ofSamples os = .ok family.outer ∧
        (written.orient o).shape = (family.outer.samples.size, values.size) ∧
        ∀ (i : Fin family.outer.samples.size) (hi : i.val < (written.orient o).rows),
          Curve.ofSamples ((written.orient o).row ⟨i, hi⟩) values c.other.name "z" =
            .ok (family.curveAt (family.outer.place i)) := by
  constructor
  · intro h
    obtain ⟨hc, houter, hs, -⟩ := ofSamples_eq_ok_iff.mp h
    exact ⟨hc, houter, hs, curve_place h⟩
  · rintro ⟨hc, houter, hs, hcurve⟩
    have hrows : (written.orient o).rows = family.outer.samples.size := (Prod.mk.inj hs).1
    obtain ⟨curves, hcurves⟩ := exists_rowCurves_iff.mpr fun i =>
      ⟨_, hcurve ⟨i, by omega⟩ i.isLt⟩
    refine ofSamples_eq_ok_iff.mpr ⟨hc, houter, hs, curves, hcurves, ?_⟩
    have hsize : curves.toArray.size = family.outer.samples.size :=
      (length_rowCurves hcurves).trans hrows
    apply Array.ext
    · rw [family.size_curves, Axis.size_reorder, hsize]
    · intro j hj hj'
      -- entry `j` is the curve of the row that is kept there
      let k : Fin family.outer.samples.size := ⟨j, family.size_curves ▸ hj⟩
      let i := family.outer.place k
      have hplace : family.outer.place i = k := family.outer.place_place k
      have hi : i.val < (written.orient o).rows := by
        rw [hrows]
        exact i.isLt
      obtain ⟨curve, hget, hrow⟩ := getElem?_rowCurves hcurves ⟨i, hi⟩
      have hkept := Axis.getElem?_reorder_place hsize i
      have hget : curves.toArray[i.val]? = some curve := List.getElem?_toArray.trans hget
      rw [hplace, hget] at hkept
      rw [hcurve i hi, hplace] at hrow
      have hsame : family.curveAt k = curve := Except.ok.inj hrow
      have hentry := Array.getElem?_eq_getElem hj'
      exact hsame.trans (Option.some.inj (hkept.symm.trans hentry))

theorem exists_ofSamples_iff [LawfulScalar α] {c : Coordinate} {os : Array α}
    {written : Matrix α} {o : Orientation} {values : Array α} :
    (∃ family, ofSamples c os written o values = .ok family) ↔
      ValidSamples os ∧ (written.orient o).shape = (os.size, values.size) ∧
        ∀ i, ValidSamples ((written.orient o).row i) := by
  constructor
  · rintro ⟨family, h⟩
    obtain ⟨-, houter, hs, curves, hc, -⟩ := ofSamples_eq_ok_iff.mp h
    rw [Axis.size_of_ofSamples houter] at hs
    refine ⟨Axis.validSamples_of_ofSamples houter, hs, fun i => ?_⟩
    exact (Curve.exists_ofSamples_iff.mp (exists_rowCurves_iff.mp ⟨curves, hc⟩ i)).1
  · rintro ⟨hv, hs, hrow⟩
    obtain ⟨outer, houter⟩ := Axis.exists_ofSamples_iff.mpr hv
    rw [← Axis.size_of_ofSamples houter] at hs
    obtain ⟨hrows, hcolumns⟩ := Prod.mk.inj hs
    have hcurve : ∀ i, ∃ curve,
        Curve.ofSamples ((written.orient o).row i) values c.other.name "z" = .ok curve := by
      intro i
      refine Curve.exists_ofSamples_iff.mpr ⟨hrow i, ?_⟩
      rw [Matrix.size_row]
      exact hcolumns.symm
    obtain ⟨curves, hc⟩ := exists_rowCurves_iff.mpr hcurve
    refine ⟨⟨c, outer, outer.reorder curves.toArray, ?_⟩,
      ofSamples_eq_ok_iff.mpr ⟨rfl, houter, hs, curves, hc, rfl⟩⟩
    rw [Axis.size_reorder]
    exact (length_rowCurves hc).trans hrows

end DesignChart.CurveFamily
