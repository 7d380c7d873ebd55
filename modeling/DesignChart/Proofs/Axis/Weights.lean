import Mathlib
import DesignChart.Proofs.Axis.Location
import DesignChart.Proofs.Scalar.Exact

/-!
# Which samples have a weight

A number is read between the two ends of its cell, and an end has a weight unless the number lies
in the other one. Over exact numbers these are the samples that the number lies at or directly
between, in increasing order, whichever of two cells that meet is taken.
-/

namespace DesignChart.Axis

variable {axis : Axis Exact}

/-- Sample `i` is used at `w`: it is `w` itself, or `w` lies strictly between it and the next sample
on either side. -/
def Used (axis : Axis Exact) (w : Exact) (i : Fin axis.samples.size) : Prop :=
  axis.sample i = w ∨
    (∃ j : Fin axis.samples.size, i.val + 1 = j.val ∧ axis.sample i < w ∧ w < axis.sample j) ∨
    ∃ j : Fin axis.samples.size, j.val + 1 = i.val ∧ axis.sample j < w ∧ w < axis.sample i

instance (axis : Axis Exact) (w : Exact) : DecidablePred (axis.Used w) := fun _ =>
  inferInstanceAs (Decidable (_ ∨ _))

/-- The samples used at `w`, in increasing order. -/
def usedSamples (axis : Axis Exact) (w : Exact) : List (Fin axis.samples.size) :=
  (List.finRange axis.samples.size).filter (axis.Used w)

namespace Increasing

variable (h : axis.Increasing)
include h

/-- The ends of a cell are numbers, and not the same. -/
theorem exists_ends (cell : Cell axis) :
    ∃ a b, cell.start = .number a ∧ cell.stop = .number b ∧ a < b := by
  have hlt := h.start_lt_stop cell
  obtain ⟨a, b, ha, hb, -⟩ := Exact.exists_numbers_of_le (Scalar.le_of_lt hlt)
  rw [ha, hb] at hlt
  exact ⟨a, b, ha, hb, hlt⟩

/-- The fraction of a number along a cell, with the cell's length above zero. -/
theorem fraction_number {cell : Cell axis} {a b : ℚ} (ha : cell.start = .number a)
    (hb : cell.stop = .number b) (q : ℚ) :
    0 < b - a ∧ cell.fraction (.number q) = .number ((q - a) / (b - a)) := by
  have hlt := h.start_lt_stop cell
  rw [ha, hb, Exact.number_lt] at hlt
  have hpos : 0 < b - a := sub_pos.mpr hlt
  refine ⟨hpos, ?_⟩
  unfold Cell.fraction
  rw [ha, hb, Exact.number_sub, Exact.number_sub, Exact.number_div _ hpos.ne']

theorem fraction_lt_one_iff (cell : Cell axis) (w : Exact) :
    cell.fraction w < 1 ↔ w < cell.stop := by
  obtain ⟨a, b, ha, hb, -⟩ := h.exists_ends cell
  cases w with
  | nan => exact ⟨fun hlt => absurd hlt Exact.not_nan_lt, fun hlt => absurd hlt Exact.not_nan_lt⟩
  | number q =>
    obtain ⟨hpos, hfraction⟩ := h.fraction_number ha hb q
    rw [hfraction, hb, Exact.one_eq, Exact.number_lt, Exact.number_lt, div_lt_one hpos]
    exact sub_lt_sub_iff_right a

theorem zero_lt_fraction_iff (cell : Cell axis) (w : Exact) :
    0 < cell.fraction w ↔ cell.start < w := by
  obtain ⟨a, b, ha, hb, -⟩ := h.exists_ends cell
  cases w with
  | nan => exact ⟨fun hlt => absurd hlt Exact.not_lt_nan, fun hlt => absurd hlt Exact.not_lt_nan⟩
  | number q =>
    obtain ⟨hpos, hfraction⟩ := h.fraction_number ha hb q
    rw [hfraction, ha, Exact.zero_eq, Exact.number_lt, Exact.number_lt, div_pos_iff_of_pos_right hpos]
    exact sub_pos

theorem fraction_start_eq_zero (cell : Cell axis) : cell.fraction cell.start = 0 := by
  obtain ⟨a, b, ha, hb, -⟩ := h.exists_ends cell
  rw [ha, (h.fraction_number ha hb a).2, sub_self, zero_div]
  rfl

theorem fraction_stop_eq_one (cell : Cell axis) : cell.fraction cell.stop = 1 := by
  obtain ⟨a, b, ha, hb, -⟩ := h.exists_ends cell
  obtain ⟨hpos, hfraction⟩ := h.fraction_number ha hb b
  rw [hb, hfraction, div_self hpos.ne']
  rfl

theorem used_iff {cell : Cell axis} {w : Exact} (hc : cell.Contains w)
    (i : Fin axis.samples.size) :
    axis.Used w i ↔ i = cell.low ∧ w < cell.stop ∨ i = cell.high ∧ cell.start < w := by
  have hends := h.start_lt_stop cell
  constructor
  · rintro (rfl | ⟨j, hij, hi, hj⟩ | ⟨j, hji, hj, hi⟩)
    · rcases h.eq_low_or_eq_high hc with rfl | rfl
      · exact Or.inl ⟨rfl, hends⟩
      · exact Or.inr ⟨rfl, hends⟩
    · left
      have hlow : cell.low < j := h.sample_lt_iff.mp (Scalar.lt_of_le_of_lt hc.1 hj)
      have hhigh : i < cell.high := h.sample_lt_iff.mp (Scalar.lt_of_lt_of_le hi hc.2)
      simp only [Fin.lt_def, Cell.low, Cell.high] at hlow hhigh
      obtain rfl : i = cell.low := Fin.ext (by simp only [Cell.low]; omega)
      obtain rfl : j = cell.high := Fin.ext (by simp only [Cell.high]; omega)
      exact ⟨rfl, hj⟩
    · right
      have hlow : cell.low < i := h.sample_lt_iff.mp (Scalar.lt_of_le_of_lt hc.1 hi)
      have hhigh : j < cell.high := h.sample_lt_iff.mp (Scalar.lt_of_lt_of_le hj hc.2)
      simp only [Fin.lt_def, Cell.low, Cell.high] at hlow hhigh
      obtain rfl : i = cell.high := Fin.ext (by simp only [Cell.high]; omega)
      obtain rfl : j = cell.low := Fin.ext (by simp only [Cell.low]; omega)
      exact ⟨rfl, hj⟩
  · rintro (⟨rfl, hstop⟩ | ⟨rfl, hstart⟩)
    · by_cases hstart : cell.start < w
      · exact Or.inr (Or.inl ⟨cell.high, rfl, hstart, hstop⟩)
      · have hw := LawfulScalar.isNaN_of_le hc.1
        exact Or.inl (Exact.eq_of_le_of_le hc.1 (Scalar.le_of_not_lt hw.1 hw.2 hstart))
    · by_cases hstop : w < cell.stop
      · exact Or.inr (Or.inr ⟨cell.low, rfl, hstart, hstop⟩)
      · have hw := LawfulScalar.isNaN_of_le hc.2
        exact Or.inl (Exact.eq_of_le_of_le (Scalar.le_of_not_lt hw.1 hw.2 hstop) hc.2)

/-- The samples used are the ends of a cell that have a weight. -/
theorem usedSamples_eq {cell : Cell axis} {w : Exact} (hc : cell.Contains w) :
    axis.usedSamples w = (if w < cell.stop then [cell.low] else []) ++
      if cell.start < w then [cell.high] else [] := by
  have hsorted : (axis.usedSamples w).Pairwise (· < ·) :=
    List.Pairwise.filter _ (List.pairwise_lt_finRange _)
  have hlt : cell.low < cell.high := Nat.lt_succ_self cell.index
  refine List.Pairwise.eq_of_mem_iff hsorted ?_ fun i => ?_
  · split <;> split <;> simp [hlt]
  · have hmem : i ∈ axis.usedSamples w ↔ axis.Used w i := by simp [usedSamples]
    rw [hmem, h.used_iff hc]
    split <;> split <;> simp [*]

end Increasing

end DesignChart.Axis
