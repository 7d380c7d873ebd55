import Mathlib
import DesignChart.Proofs.Axis.Location
import DesignChart.Proofs.Scalar.Rational

/-!
# Reading data along an axis exactly

Over the rationals a reading does not depend on the cell it is taken in, as long as the cell holds
the number: where two cells meet, both give the datum of the shared sample. A reading between two
neighbouring samples is hence their weighted mean, in whichever direction they are named. So is a
reading at the nearest number in range, wherever the number itself lies. A property of stretches
that each cell has, and that is carried on from one stretch to the next, is one of all in range.
-/

namespace DesignChart

theorem Interval.Proper.clamp_eq_max_min {range : Interval ℚ} (h : range.Proper) (v : ℚ) :
    range.clamp v = max range.lower (min range.upper v) := by
  have hrange : range.lower ≤ range.upper := h
  unfold Interval.clamp
  split
  next hlt => rw [min_eq_right (hlt.le.trans hrange), max_eq_left hlt.le]
  next hge =>
    split
    next hlt => rw [min_eq_left hlt.le, max_eq_right hrange]
    next hle => rw [min_eq_right (not_lt.mp hle), max_eq_right (not_lt.mp hge)]

namespace Axis

variable {axis : Axis ℚ}

/-- Places next to each other, in either order. -/
def Adjacent {n : Nat} (p q : Fin n) : Prop := p.val + 1 = q.val ∨ q.val + 1 = p.val

theorem Adjacent.exists_cell {p q : Fin axis.samples.size} (hpq : Adjacent p q) :
    ∃ cell : Cell axis, (cell.low = p ∧ cell.high = q) ∨ (cell.high = p ∧ cell.low = q) := by
  rcases hpq with hpq | hqp
  · exact ⟨⟨p, by omega⟩, Or.inl ⟨rfl, Fin.ext hpq⟩⟩
  · exact ⟨⟨q, by omega⟩, Or.inr ⟨Fin.ext hqp, rfl⟩⟩

/-- Data supplied next to each other are kept next to each other. -/
theorem adjacent_place {α : Type} {axis : Axis α} {p q : Fin axis.samples.size}
    (hpq : p.val + 1 = q.val) : Adjacent (axis.place p) (axis.place q) := by
  have hq := q.isLt
  unfold Adjacent
  rw [val_place, val_place]
  split
  · right
    omega
  · left
    exact hpq

/-- The share of one end is what the other leaves. -/
theorem fraction_turn {a b : ℚ} (hab : a ≠ b) (v : ℚ) :
    (v - b) / (a - b) = 1 - (v - a) / (b - a) := by
  have hba : b - a ≠ 0 := sub_ne_zero.mpr hab.symm
  have hab' : a - b ≠ 0 := sub_ne_zero.mpr hab
  field_simp
  ring

namespace Cell

theorem fraction_eq (cell : Cell axis) (v : ℚ) :
    cell.fraction v = (v - cell.start) / (cell.stop - cell.start) := rfl

theorem read_eq (cell : Cell axis) (data : Fin axis.samples.size → ℚ) (v : ℚ) :
    cell.read data v =
      (1 - cell.fraction v) * data cell.low + cell.fraction v * data cell.high := rfl

theorem fraction_start (cell : Cell axis) : cell.fraction cell.start = 0 := by
  rw [fraction_eq, sub_self, zero_div]

theorem read_start (cell : Cell axis) (data : Fin axis.samples.size → ℚ) :
    cell.read data cell.start = data cell.low := by
  rw [read, fraction_start, blend_zero]

end Cell

namespace Increasing

variable (h : axis.Increasing)
include h

theorem fraction_stop (cell : Cell axis) : cell.fraction cell.stop = 1 := by
  rw [Cell.fraction_eq]
  exact div_self (sub_ne_zero.mpr (h.start_lt_stop cell).ne')

theorem fraction_mem_Icc {cell : Cell axis} {v : ℚ} (hc : cell.Contains v) :
    0 ≤ cell.fraction v ∧ cell.fraction v ≤ 1 := by
  have hpos : 0 < cell.stop - cell.start := sub_pos.mpr (h.start_lt_stop cell)
  rw [Cell.fraction_eq]
  refine ⟨div_nonneg (sub_nonneg.mpr hc.1) hpos.le, ?_⟩
  rw [div_le_one hpos]
  exact sub_le_sub_right hc.2 _

theorem read_stop (cell : Cell axis) (data : Fin axis.samples.size → ℚ) :
    cell.read data cell.stop = data cell.high := by
  rw [Cell.read, h.fraction_stop, blend_one]

theorem read_sample {cell : Cell axis} {i : Fin axis.samples.size}
    (hc : cell.Contains (axis.sample i)) (data : Fin axis.samples.size → ℚ) :
    cell.read data (axis.sample i) = data i := by
  rcases h.eq_low_or_eq_high hc with rfl | rfl
  · exact cell.read_start data
  · exact h.read_stop cell data

/-- Two cells that hold a number are the same cell, or meet in it. -/
theorem eq_or_meet {cell other : Cell axis} {v : ℚ} (hc : cell.Contains v)
    (ho : other.Contains v) : cell = other ∨ ∃ i : Fin axis.samples.size, v = axis.sample i := by
  by_cases hi : cell.index = other.index
  · left
    cases cell
    cases other
    cases hi
    rfl
  · right
    rcases Nat.lt_or_gt_of_ne hi with hlt | hgt
    · have hstop : cell.stop ≤ other.start := h.le cell.high other.low hlt
      exact ⟨cell.high, le_antisymm hc.2 (hstop.trans ho.1)⟩
    · have hstop : other.stop ≤ cell.start := h.le other.high cell.low hgt
      exact ⟨other.high, le_antisymm ho.2 (hstop.trans hc.1)⟩

/-- A reading does not depend on the cell. -/
theorem read_eq_read {cell other : Cell axis} {v : ℚ} (hc : cell.Contains v)
    (ho : other.Contains v) (data : Fin axis.samples.size → ℚ) :
    cell.read data v = other.read data v := by
  rcases h.eq_or_meet hc ho with rfl | ⟨i, rfl⟩
  · rfl
  · rw [h.read_sample hc, h.read_sample ho]

theorem mem_uIcc_iff (cell : Cell axis) {v : ℚ} :
    v ∈ Set.uIcc (axis.sample cell.low) (axis.sample cell.high) ↔ cell.Contains v := by
  have hlt : axis.sample cell.low < axis.sample cell.high := h.start_lt_stop cell
  rw [Set.uIcc_of_lt hlt]
  exact Iff.rfl

theorem mem_range_of_mem_uIcc {p q : Fin axis.samples.size} {v : ℚ}
    (hv : v ∈ Set.uIcc (axis.sample p) (axis.sample q)) : v ∈ axis.range := by
  have hp := h.sample_mem_range p
  have hq := h.sample_mem_range q
  exact ⟨(le_inf hp.1 hq.1).trans hv.1, hv.2.trans (sup_le hp.2 hq.2)⟩

/-- A number is read alike in every cell that holds it. -/
theorem locate_read_eq {cell : Cell axis} {v : ℚ} (hc : cell.Contains v)
    (data : Fin axis.samples.size → ℚ) : (axis.locate v).read data v = cell.read data v := by
  have hmem := h.mem_range_of_mem_uIcc ((h.mem_uIcc_iff cell).mpr hc)
  exact h.read_eq_read (contains_locate h hmem) hc data

theorem contains_start (cell : Cell axis) : cell.Contains cell.start :=
  ⟨le_rfl, (h.start_lt_stop cell).le⟩

theorem contains_stop (cell : Cell axis) : cell.Contains cell.stop :=
  ⟨(h.start_lt_stop cell).le, le_rfl⟩

/-- What holds along each cell, and is carried on where one stretch follows another, holds from
each sample to every later one. -/
theorem of_cells_samples {R : ℚ → ℚ → Prop} (htrans : ∀ {a b c}, R a b → R b c → R a c)
    (hcell : ∀ (cell : Cell axis) {a b}, cell.Contains a → cell.Contains b → a ≤ b → R a b)
    {p q : Fin axis.samples.size} (hpq : p ≤ q) : R (axis.sample p) (axis.sample q) := by
  obtain ⟨q, hq⟩ := q
  induction q with
  | zero =>
    obtain rfl : p = ⟨0, hq⟩ := Fin.ext (Nat.le_zero.mp hpq)
    have hc := contains_locate h (h.sample_mem_range ⟨0, hq⟩)
    exact hcell _ hc hc le_rfl
  | succ q ih =>
    let cell : Cell axis := ⟨q, hq⟩
    have hstep : R cell.start cell.stop :=
      hcell cell (h.contains_start cell) (h.contains_stop cell) (h.start_lt_stop cell).le
    rcases hpq.eq_or_lt with rfl | hlt
    · exact hcell cell (h.contains_stop cell) (h.contains_stop cell) le_rfl
    · exact htrans (ih (Nat.lt_of_succ_lt hq) (Nat.le_of_lt_succ hlt)) hstep

/-- So does it along every stretch in range: one that leaves its cell passes by the samples
between. -/
theorem of_cells {R : ℚ → ℚ → Prop} (htrans : ∀ {a b c}, R a b → R b c → R a c)
    (hcell : ∀ (cell : Cell axis) {a b}, cell.Contains a → cell.Contains b → a ≤ b → R a b)
    {a b : ℚ} (ha : a ∈ axis.range) (hb : b ∈ axis.range) (hab : a ≤ b) : R a b := by
  have hca := contains_locate h ha
  have hcb := contains_locate h hb
  generalize axis.locate a = cell at hca
  generalize axis.locate b = cell' at hcb
  by_cases hsame : cell.Contains b
  · exact hcell cell hca hsame hab
  · have hstop : cell.stop < b := lt_of_not_ge fun hle => hsame ⟨hca.1.trans hab, hle⟩
    have hbetween : cell.high ≤ cell'.low := by
      have hlt : axis.sample cell.high < axis.sample cell'.high := hstop.trans_le hcb.2
      exact Nat.le_of_lt_succ (h.sample_lt_iff.mp hlt)
    have hfirst : R a cell.stop := hcell cell hca (h.contains_stop cell) hca.2
    have hmiddle : R cell.stop cell'.start := h.of_cells_samples (R := R) htrans hcell hbetween
    have hlast : R cell'.start b := hcell cell' (h.contains_start cell') hcb hcb.1
    exact htrans hfirst (htrans hmiddle hlast)

/-- Between neighbouring samples, named in either order, the data are read as their weighted
mean. -/
theorem locate_read {p q : Fin axis.samples.size} (hpq : Adjacent p q) {v : ℚ}
    (hv : v ∈ Set.uIcc (axis.sample p) (axis.sample q)) (data : Fin axis.samples.size → ℚ) :
    (axis.locate v).read data v =
      (1 - (v - axis.sample p) / (axis.sample q - axis.sample p)) * data p +
        (v - axis.sample p) / (axis.sample q - axis.sample p) * data q := by
  obtain ⟨cell, ⟨rfl, rfl⟩ | ⟨rfl, rfl⟩⟩ := hpq.exists_cell
  · have hc : cell.Contains v := (h.mem_uIcc_iff cell).mp hv
    rw [h.locate_read_eq hc, Cell.read_eq]
    rfl
  · rw [Set.uIcc_comm] at hv
    have hc : cell.Contains v := (h.mem_uIcc_iff cell).mp hv
    have hne : cell.start ≠ cell.stop := (h.start_lt_stop cell).ne
    rw [h.locate_read_eq hc, Cell.read_eq, Cell.fraction_eq]
    change _ = (1 - (v - cell.stop) / (cell.start - cell.stop)) * _ +
      (v - cell.stop) / (cell.start - cell.stop) * _
    rw [fraction_turn hne]
    ring

end Increasing

/-- The data at the number nearest to `v` in range. -/
def readClamped (axis : Axis ℚ) (data : Fin axis.samples.size → ℚ) (v : ℚ) : ℚ :=
  (axis.locate (axis.range.clamp v)).read data (axis.range.clamp v)

theorem Increasing.fraction_clamp_mem_Icc (h : axis.Increasing) (v : ℚ) :
    0 ≤ (axis.locate (axis.range.clamp v)).fraction (axis.range.clamp v) ∧
      (axis.locate (axis.range.clamp v)).fraction (axis.range.clamp v) ≤ 1 :=
  h.fraction_mem_Icc (contains_locate h (h.proper_range.clamp_mem rfl))

/-- All data are read at a number from the same two samples and with the same weights. -/
theorem Increasing.exists_readClamped_eq (h : axis.Increasing) (v : ℚ) :
    ∃ p q t, (0 ≤ t ∧ t ≤ 1) ∧ ∀ data, axis.readClamped data v = blend (data p) (data q) t :=
  ⟨_, _, _, h.fraction_clamp_mem_Icc v, fun _ => rfl⟩

end Axis

end DesignChart
