import Mathlib
import DesignChart.ValueGrid
import DesignChart.Proofs.Axis.Location
import DesignChart.Proofs.Matrix.Entries
import DesignChart.Proofs.Outcome

/-!
# Value grids from the numbers supplied

A value grid is accepted when both vectors make an axis and the matrix, turned with its first
variable along the rows, has a value for each pair of samples. Every value keeps its pair of
samples, and the grid is read by blending along one axis what is blended along the other.
-/

namespace DesignChart.ValueGrid

variable {α : Type} [Scalar α]

/-- The value kept beside a pair of samples. -/
def valueAt (grid : ValueGrid α) (i : Fin grid.xAxis.samples.size)
    (j : Fin grid.yAxis.samples.size) : α :=
  grid.values.entry i.val j.val (grid.rows_values.symm ▸ i.isLt) (grid.columns_values.symm ▸ j.isLt)

theorem eval_eq_read (grid : ValueGrid α) (x y : α) :
    grid.eval x y = (grid.yAxis.locate y).read
      (fun j => (grid.xAxis.locate x).read (fun i => grid.valueAt i j) x) y := rfl

theorem ofSamples_eq_ok_iff {xs ys : Array α} {written : Matrix α} {o : Orientation}
    {grid : ValueGrid α} :
    ofSamples xs ys written o = .ok grid ↔
      Axis.ofSamples xs = .ok grid.xAxis ∧ Axis.ofSamples ys = .ok grid.yAxis ∧
        (written.orient o).shape = (grid.xAxis.samples.size, grid.yAxis.samples.size) ∧
        grid.values = (written.orient o).turn grid.xAxis.reversed grid.yAxis.reversed := by
  obtain ⟨xAxis, yAxis, values, hrows, hcolumns⟩ := grid
  unfold ofSamples
  simp only [Outcome.bind_eq_ok, Outcome.blame_eq_ok]
  constructor
  · rintro ⟨xAxis', hx, yAxis', hy, h⟩
    split at h
    next hs =>
      obtain ⟨rfl, rfl, rfl⟩ := ValueGrid.mk.inj (Except.ok.inj h)
      exact ⟨hx, hy, Prod.ext hs.1 hs.2, rfl⟩
    next => cases h
  · rintro ⟨hx, hy, hs, hkept⟩
    subst hkept
    exact ⟨xAxis, hx, yAxis, hy, dif_pos (Prod.mk.inj hs)⟩

/-- The value supplied for samples `i` and `j`. -/
theorem value_place {xs ys : Array α} {written : Matrix α} {o : Orientation} {grid : ValueGrid α}
    (h : ofSamples xs ys written o = .ok grid) (i : Fin grid.xAxis.samples.size)
    (j : Fin grid.yAxis.samples.size) :
    Matrix.entry? (written.orient o) i j =
      some (grid.valueAt (grid.xAxis.place i) (grid.yAxis.place j)) := by
  obtain ⟨-, -, hs, hkept⟩ := ofSamples_eq_ok_iff.mp h
  obtain ⟨hrows, hcolumns⟩ := Prod.mk.inj hs
  have hrows : (written.orient o).rows = grid.xAxis.samples.size := hrows
  have hcolumns : (written.orient o).columns = grid.yAxis.samples.size := hcolumns
  have hi : i.val < (written.orient o).rows := by omega
  have hj : j.val < (written.orient o).columns := by omega
  have hplace := Matrix.entry?_turn _ grid.xAxis.reversed grid.yAxis.reversed hi hj
  rw [← hkept, hrows, hcolumns] at hplace
  rw [← hplace]
  unfold Matrix.turned
  rw [← Axis.val_place, ← Axis.val_place]
  exact Matrix.entry?_eq_some _ _ _

/-- The same with the values supplied as a table by line and entry. -/
theorem valueAt_place [LawfulScalar α] {xs ys : Array α} {written : Matrix α} {o : Orientation}
    {grid : ValueGrid α} (h : ofSamples xs ys written o = .ok grid) {z : Nat → Nat → α}
    (hz : ∀ i < xs.size, ∀ j < ys.size, Matrix.entry? (written.orient o) i j = some (z i j))
    (i : Fin grid.xAxis.samples.size) (j : Fin grid.yAxis.samples.size) :
    grid.valueAt (grid.xAxis.place i) (grid.yAxis.place j) = z i j := by
  obtain ⟨hx, hy, -, -⟩ := ofSamples_eq_ok_iff.mp h
  have hm := Axis.size_of_ofSamples hx
  have hn := Axis.size_of_ofSamples hy
  have hplace := value_place h i j
  rw [hz i (by omega) j (by omega)] at hplace
  exact (Option.some.inj hplace).symm

theorem exists_ofSamples_iff [LawfulScalar α] {xs ys : Array α} {written : Matrix α}
    {o : Orientation} :
    (∃ grid, ofSamples xs ys written o = .ok grid) ↔
      ValidSamples xs ∧ ValidSamples ys ∧ (written.orient o).shape = (xs.size, ys.size) := by
  constructor
  · rintro ⟨grid, h⟩
    obtain ⟨hx, hy, hs, -⟩ := ofSamples_eq_ok_iff.mp h
    rw [Axis.size_of_ofSamples hx, Axis.size_of_ofSamples hy] at hs
    exact ⟨Axis.validSamples_of_ofSamples hx, Axis.validSamples_of_ofSamples hy, hs⟩
  · rintro ⟨hxv, hyv, hs⟩
    obtain ⟨xAxis, hx⟩ := Axis.exists_ofSamples_iff.mpr hxv
    obtain ⟨yAxis, hy⟩ := Axis.exists_ofSamples_iff.mpr hyv
    rw [← Axis.size_of_ofSamples hx, ← Axis.size_of_ofSamples hy] at hs
    obtain ⟨hrows, hcolumns⟩ := Prod.mk.inj hs
    exact ⟨⟨xAxis, yAxis, (written.orient o).turn xAxis.reversed yAxis.reversed,
      (Matrix.rows_turn _ _ _).trans hrows, (Matrix.columns_turn _ _ _).trans hcolumns⟩,
      ofSamples_eq_ok_iff.mpr ⟨hx, hy, hs, rfl⟩⟩

end DesignChart.ValueGrid
