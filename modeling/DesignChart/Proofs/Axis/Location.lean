import Mathlib
import DesignChart.Axis.Cell
import DesignChart.Proofs.Axis.Samples
import DesignChart.Proofs.Interval

/-!
# The cell a number is read in

The search keeps a stretch of samples that begins at or before the number and ends after it. On an
increasing axis a number in range is therefore read in a cell that holds it. Below and above the
range the outermost cells are taken, which no statement here is about.
-/

namespace DesignChart.Axis

variable {α : Type} [Scalar α] {axis : Axis α}

namespace Cell

/-- The sample in which a cell begins, as a place on the axis. -/
def low (cell : Cell axis) : Fin axis.samples.size :=
  ⟨cell.index, Nat.lt_of_succ_lt cell.next_lt⟩

/-- The sample in which a cell ends, as a place on the axis. -/
def high (cell : Cell axis) : Fin axis.samples.size := ⟨cell.index + 1, cell.next_lt⟩

/-- The number lies between the ends of the cell, these included. -/
def Contains (cell : Cell axis) (v : α) : Prop := cell.start ≤ v ∧ v ≤ cell.stop

/-- Data given in the samples, blended along a cell. -/
def read (cell : Cell axis) (data : Fin axis.samples.size → α) (v : α) : α :=
  blend (data cell.low) (data cell.high) (cell.fraction v)

end Cell

theorem Increasing.start_lt_stop (h : axis.Increasing) (cell : Cell axis) :
    cell.start < cell.stop :=
  h.lt (i := cell.low) (j := cell.high) (Nat.lt_succ_self _)

/-- A bisection that starts around `v` ends around `v`. -/
theorem bisect_spec {v : α} {low high : Nat} (low_lt : low < high)
    (high_lt : high < axis.samples.size) (hlow : axis.sample ⟨low, low_lt.trans high_lt⟩ ≤ v)
    (hhigh : ¬ axis.sample ⟨high, high_lt⟩ ≤ v) :
    (axis.bisect v low high low_lt high_lt).start ≤ v ∧
      ¬ (axis.bisect v low high low_lt high_lt).stop ≤ v := by
  fun_induction bisect axis v low high low_lt high_lt with
  | case1 low high low_lt high_lt hgap hmid ih => exact ih hmid hhigh
  | case2 low high low_lt high_lt hgap hmid ih => exact ih hlow hmid
  | case3 low high low_lt high_lt hgap =>
    have hnext : high = low + 1 := by omega
    subst hnext
    exact ⟨hlow, hhigh⟩

theorem bisect_congr {v w : α} (h : ∀ c, c ≤ v ↔ c ≤ w) {low high : Nat} (low_lt : low < high)
    (high_lt : high < axis.samples.size) :
    axis.bisect v low high low_lt high_lt = axis.bisect w low high low_lt high_lt := by
  fun_induction bisect axis v low high low_lt high_lt with
  | case1 low high low_lt high_lt hgap hmid ih =>
    rw [ih]
    conv_rhs => rw [bisect, dif_pos hgap, if_pos ((h _).mp hmid)]
  | case2 low high low_lt high_lt hgap hmid ih =>
    rw [ih]
    conv_rhs => rw [bisect, dif_pos hgap, if_neg (mt (h _).mpr hmid)]
  | case3 low high low_lt high_lt hgap =>
    rw [bisect, dif_neg hgap]

/-- The search sees a number through its comparisons only. -/
theorem locate_congr {v w : α} (hle : ∀ c, v ≤ c ↔ w ≤ c) (hge : ∀ c, c ≤ v ↔ c ≤ w) :
    axis.locate v = axis.locate w := by
  unfold locate
  simp only [hle, hge, bisect_congr hge]

variable [LawfulScalar α]

theorem Increasing.isNaN_sample (h : axis.Increasing) (i : Fin axis.samples.size) :
    Scalar.isNaN (axis.sample i) = false :=
  LawfulScalar.isNaN_of_isFinite (h.isFinite _ (Array.getElem_mem i.isLt))

theorem Increasing.le (h : axis.Increasing) (i j : Fin axis.samples.size) (hij : i ≤ j) :
    axis.sample i ≤ axis.sample j := by
  rcases Fin.lt_or_eq_of_le hij with hlt | rfl
  · exact Scalar.le_of_lt (h.lt hlt)
  · exact Scalar.le_refl (h.isNaN_sample i)

theorem Increasing.sample_lt_iff (h : axis.Increasing) {i j : Fin axis.samples.size} :
    axis.sample i < axis.sample j ↔ i < j := by
  constructor
  · intro hlt
    by_contra hji
    exact Scalar.not_lt_of_le (h.le j i (not_lt.mp hji)) hlt
  · exact h.lt

theorem Increasing.sample_le_iff (h : axis.Increasing) {i j : Fin axis.samples.size} :
    axis.sample i ≤ axis.sample j ↔ i ≤ j := by
  constructor
  · intro hle
    by_contra hji
    exact Scalar.not_le_of_lt (h.lt (not_le.mp hji)) hle
  · exact h.le i j

/-- A sample in a cell is one of its ends. -/
theorem Increasing.eq_low_or_eq_high (h : axis.Increasing) {cell : Cell axis}
    {i : Fin axis.samples.size} (hc : cell.Contains (axis.sample i)) :
    i = cell.low ∨ i = cell.high := by
  have hlow : cell.low ≤ i := h.sample_le_iff.mp hc.1
  have hhigh : i ≤ cell.high := h.sample_le_iff.mp hc.2
  simp only [Fin.le_def, Fin.ext_iff, Cell.low, Cell.high] at *
  omega

theorem Increasing.sample_mem_range (h : axis.Increasing) (i : Fin axis.samples.size) :
    axis.sample i ∈ axis.range :=
  ⟨h.le ⟨0, axis.size_pos⟩ i (Fin.mk_le_mk.mpr (Nat.zero_le _)),
    h.le i ⟨axis.samples.size - 1, axis.last_lt⟩ (Fin.mk_le_mk.mpr (Nat.le_pred_of_lt i.isLt))⟩

theorem Increasing.proper_range (h : axis.Increasing) : axis.range.Proper :=
  h.le ⟨0, axis.size_pos⟩ ⟨axis.samples.size - 1, axis.last_lt⟩ (Fin.mk_le_mk.mpr (Nat.zero_le _))

/-- A number in range is read in a cell that holds it. -/
theorem contains_locate (h : axis.Increasing) {v : α} (hv : v ∈ axis.range) :
    (axis.locate v).Contains v := by
  obtain ⟨hleast, hgreatest⟩ := hv
  have hsize := axis.two_le_size
  unfold locate
  split
  next hle =>
    have hstep : axis.least ≤ axis.sample ⟨1, by omega⟩ :=
      h.le ⟨0, by omega⟩ ⟨1, by omega⟩ (Fin.mk_le_mk.mpr (by omega))
    exact ⟨hleast, LawfulScalar.le_trans hle hstep⟩
  next hle =>
    split
    next hge =>
      have hstart : axis.sample ⟨axis.samples.size - 2, by omega⟩ ≤ axis.greatest :=
        h.le ⟨axis.samples.size - 2, by omega⟩ ⟨axis.samples.size - 1, by omega⟩
          (Fin.mk_le_mk.mpr (by omega))
      have hstop : axis.greatest ≤ axis.sample ⟨axis.samples.size - 2 + 1, by omega⟩ :=
        h.le ⟨axis.samples.size - 1, by omega⟩ ⟨axis.samples.size - 2 + 1, by omega⟩
          (Fin.mk_le_mk.mpr (by omega))
      exact ⟨LawfulScalar.le_trans hstart hge, LawfulScalar.le_trans hgreatest hstop⟩
    next hge =>
      have hfirst : axis.sample ⟨0, by omega⟩ ≤ v := hleast
      have hlast : ¬ axis.sample ⟨axis.samples.size - 1, by omega⟩ ≤ v := hge
      obtain ⟨hstart, hstop⟩ := bisect_spec (by omega) (by omega) hfirst hlast
      refine ⟨hstart, Scalar.le_of_lt (Scalar.lt_of_not_le ?_ ?_ hstop)⟩
      · exact (LawfulScalar.isNaN_of_le hleast).2
      · exact h.isNaN_sample (Cell.high _)

/-- A sample is read in the cell that begins in it, and the last one in the last cell. -/
theorem index_locate_sample (h : axis.Increasing) (i : Fin axis.samples.size) :
    (axis.locate (axis.sample i)).index =
      if i.val + 1 < axis.samples.size then i.val else axis.samples.size - 2 := by
  have hsize := axis.two_le_size
  have hi := i.isLt
  unfold locate
  split
  next hle =>
    have hfirst : i ≤ ⟨0, by omega⟩ := h.sample_le_iff.mp hle
    have hzero : i.val = 0 := Nat.le_zero.mp hfirst
    rw [hzero, if_pos (by omega)]
  next hle =>
    split
    next hge =>
      have hlast : ⟨axis.samples.size - 1, by omega⟩ ≤ i := h.sample_le_iff.mp hge
      have hlast : axis.samples.size - 1 ≤ i.val := hlast
      rw [if_neg (by omega)]
    next hge =>
      have hfirst : axis.sample ⟨0, by omega⟩ ≤ axis.sample i :=
        h.le _ _ (Fin.mk_le_mk.mpr (Nat.zero_le _))
      have hlast : ¬ axis.sample ⟨axis.samples.size - 1, by omega⟩ ≤ axis.sample i := hge
      obtain ⟨hstart, hstop⟩ := bisect_spec (by omega) (by omega) hfirst hlast
      generalize axis.bisect (axis.sample i) 0 _ _ _ = cell at hstart hstop ⊢
      have hlow : cell.low ≤ i := h.sample_le_iff.mp hstart
      have hhigh : ¬ cell.high ≤ i := fun hle => hstop (h.sample_le_iff.mpr hle)
      have hnext := cell.next_lt
      simp only [Fin.le_def, Cell.low, Cell.high] at hlow hhigh
      rw [if_pos (by omega)]
      omega

end DesignChart.Axis
