import Mathlib
import DesignChart.Proofs.Axis.Reading

/-!
# Data that rise or fall along an axis

Data that rise from sample to sample are read in rising order at any two numbers: within a cell they
follow a straight line, and on the way from one cell to another they pass by the samples between.
Readings at the nearest number in range are included, since moving numbers into a range keeps their
order. At a fixed number, a reading grows with the data themselves.
-/

namespace DesignChart

/-- Numbers moved into a range keep their order. -/
theorem Interval.Proper.monotone_clamp {range : Interval ℚ} (h : range.Proper) :
    Monotone range.clamp := by
  intro a b hab
  rw [h.clamp_eq_max_min, h.clamp_eq_max_min]
  exact max_le_max le_rfl (min_le_min le_rfl hab)

namespace Axis

variable {axis : Axis ℚ} {data other : Fin axis.samples.size → ℚ}

theorem readClamped_neg (data : Fin axis.samples.size → ℚ) (v : ℚ) :
    axis.readClamped (fun i => -data i) v = -axis.readClamped data v := by
  unfold readClamped
  rw [Cell.read_eq, Cell.read_eq]
  ring

namespace Increasing

variable (h : axis.Increasing)
include h

/-- Within a cell rising data are read in rising order. -/
theorem read_le_read (cell : Cell axis) (hd : data cell.low ≤ data cell.high) {a b : ℚ}
    (hab : a ≤ b) : cell.read data a ≤ cell.read data b := by
  have hpos : 0 < cell.stop - cell.start := sub_pos.mpr (h.start_lt_stop cell)
  have hstep : 0 ≤ data cell.high - data cell.low := sub_nonneg.mpr hd
  have hfraction : cell.fraction a ≤ cell.fraction b := by
    rw [Cell.fraction_eq, Cell.fraction_eq]
    gcongr
  have hline : ∀ v, cell.read data v =
      data cell.low + cell.fraction v * (data cell.high - data cell.low) := by
    intro v
    rw [Cell.read_eq]
    ring
  rw [hline, hline]
  gcongr

theorem monotone_readClamped (hd : Monotone data) : Monotone (axis.readClamped data) := by
  intro a b hab
  have hmem : ∀ v, axis.range.clamp v ∈ axis.range := fun v => h.proper_range.clamp_mem rfl
  refine h.of_cells (R := fun a b => (axis.locate a).read data a ≤ (axis.locate b).read data b)
    le_trans ?_ (hmem a) (hmem b) (h.proper_range.monotone_clamp hab)
  intro cell a b ha hb hab
  rw [h.locate_read_eq ha, h.locate_read_eq hb]
  exact h.read_le_read cell (hd (Nat.le_succ cell.index)) hab

theorem antitone_readClamped (hd : Antitone data) : Antitone (axis.readClamped data) := by
  intro a b hab
  have hneg : Monotone fun i => -data i := fun i j hij => neg_le_neg (hd hij)
  have hle := h.monotone_readClamped hneg hab
  rwa [readClamped_neg, readClamped_neg, neg_le_neg_iff] at hle

/-- Greater data give a greater reading. -/
theorem readClamped_le_readClamped (hle : ∀ i, data i ≤ other i) (v : ℚ) :
    axis.readClamped data v ≤ axis.readClamped other v :=
  blend_le_blend (h.fraction_clamp_mem_Icc v) (hle _) (hle _)

end Increasing

end Axis

end DesignChart
