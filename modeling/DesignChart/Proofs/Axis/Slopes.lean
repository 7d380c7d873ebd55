import Mathlib
import DesignChart.Proofs.Axis.Reading

/-!
# How steep data along an axis are

Data that change by no more than `L` times the distance of neighbouring samples change by no more
than that between any two numbers: within a cell this is the slope of a straight line, and on the
way from one cell to another it adds up from sample to sample. Readings at the nearest number in
range are included, since moving two numbers into a range brings them no further apart.
-/

namespace DesignChart

/-- Two values of `f` differ by no more than `L` times the distance of their arguments. -/
def Lipschitz (L : ℚ) (f : ℚ → ℚ) : Prop := ∀ a b, |f a - f b| ≤ L * |a - b|

/-- Means with the same weights are no further apart than what they are made of. -/
theorem abs_blend_sub_le {a a' b b' t d : ℚ} (ht : 0 ≤ t ∧ t ≤ 1) (ha : |a - a'| ≤ d)
    (hb : |b - b'| ≤ d) : |blend a b t - blend a' b' t| ≤ d := by
  have hsplit : blend a b t - blend a' b' t = blend (a - a') (b - b') t := by
    rw [blend_eq, blend_eq, blend_eq]
    ring
  rw [hsplit, abs_le]
  rw [abs_le] at ha hb
  exact ⟨le_blend ht.1 ht.2 ha.1 hb.1, blend_le ht.1 ht.2 ha.2 hb.2⟩

namespace Lipschitz

variable {L : ℚ} {f g : ℚ → ℚ}

theorem blend {t : ℚ} (ht : 0 ≤ t ∧ t ≤ 1) (hf : Lipschitz L f) (hg : Lipschitz L g) :
    Lipschitz L fun v => blend (f v) (g v) t := fun a b => abs_blend_sub_le ht (hf a b) (hg a b)

theorem lipschitzWith (h : Lipschitz L f) (hL : 0 ≤ L) : LipschitzWith (L : ℝ).toNNReal f := by
  refine LipschitzWith.of_dist_le_mul fun a b => ?_
  rw [Real.coe_toNNReal _ (Rat.cast_nonneg.mpr hL), Rat.dist_eq, Rat.dist_eq]
  exact_mod_cast h a b

theorem continuous (h : Lipschitz L f) (hL : 0 ≤ L) : Continuous f := (h.lipschitzWith hL).continuous

end Lipschitz

/-- Numbers moved into a range come no further apart. -/
theorem Interval.Proper.abs_clamp_sub_le {range : Interval ℚ} (h : range.Proper) (a b : ℚ) :
    |range.clamp a - range.clamp b| ≤ |a - b| := by
  rw [h.clamp_eq_max_min, h.clamp_eq_max_min]
  exact (abs_max_sub_max_le_max _ _ _ _).trans
    (by simpa using abs_min_sub_min_le_max range.upper a range.upper b)

namespace Axis

variable {axis : Axis ℚ} {L : ℚ} {data : Fin axis.samples.size → ℚ}

/-- Data of neighbouring samples differ by no more than `L` times the distance of the samples. -/
def Slopes (axis : Axis ℚ) (L : ℚ) (data : Fin axis.samples.size → ℚ) : Prop :=
  ∀ p q : Fin axis.samples.size, p.val + 1 = q.val →
    |data q - data p| ≤ L * |axis.sample q - axis.sample p|

namespace Increasing

variable (h : axis.Increasing)

include h

theorem abs_sample_sub {p q : Fin axis.samples.size} (hpq : p ≤ q) :
    |axis.sample q - axis.sample p| = axis.sample q - axis.sample p :=
  abs_of_nonneg (sub_nonneg.mpr (h.le p q hpq))

/-- The bound for neighbours is not negative, for there are two samples. -/
theorem nonneg_of_slopes (hs : axis.Slopes L data) : 0 ≤ L := by
  have hsize := axis.two_le_size
  let p : Fin axis.samples.size := ⟨0, by omega⟩
  let q : Fin axis.samples.size := ⟨1, by omega⟩
  have hstep := hs p q rfl
  have hlt : axis.sample p < axis.sample q := h.lt (Fin.mk_lt_mk.mpr Nat.zero_lt_one)
  rw [h.abs_sample_sub (p := p) (q := q) (Fin.mk_le_mk.mpr (Nat.zero_le 1))] at hstep
  exact nonneg_of_mul_nonneg_left ((abs_nonneg _).trans hstep) (sub_pos.mpr hlt)

/-- Within a cell data are read along a straight line. -/
theorem abs_read_sub_le (hs : axis.Slopes L data) (cell : Cell axis) {a b : ℚ} (hab : a ≤ b) :
    |cell.read data b - cell.read data a| ≤ L * (b - a) := by
  have hpos : 0 < cell.stop - cell.start := sub_pos.mpr (h.start_lt_stop cell)
  have hstep := hs cell.low cell.high rfl
  rw [h.abs_sample_sub (Nat.le_succ cell.index)] at hstep
  have hslope : |data cell.high - data cell.low| / (cell.stop - cell.start) ≤ L :=
    (div_le_iff₀ hpos).mpr hstep
  have hline : cell.read data b - cell.read data a =
      (data cell.high - data cell.low) / (cell.stop - cell.start) * (b - a) := by
    rw [Cell.read_eq, Cell.read_eq, Cell.fraction_eq, Cell.fraction_eq]
    field_simp
    ring
  rw [hline, abs_mul, abs_div, abs_of_pos hpos, abs_of_nonneg (sub_nonneg.mpr hab)]
  exact mul_le_mul_of_nonneg_right hslope (sub_nonneg.mpr hab)

/-- Between two numbers in range what the data change by adds up from cell to cell. -/
theorem abs_locate_read_sub_le (hs : axis.Slopes L data) {a b : ℚ} (ha : a ∈ axis.range)
    (hb : b ∈ axis.range) (hab : a ≤ b) :
    |(axis.locate b).read data b - (axis.locate a).read data a| ≤ L * (b - a) := by
  refine h.of_cells (R := fun a b =>
    |(axis.locate b).read data b - (axis.locate a).read data a| ≤ L * (b - a)) ?_ ?_ ha hb hab
  · intro a b c hfirst hlast
    calc
      |(axis.locate c).read data c - (axis.locate a).read data a| ≤
          |(axis.locate c).read data c - (axis.locate b).read data b| +
            |(axis.locate b).read data b - (axis.locate a).read data a| := abs_sub_le _ _ _
      _ ≤ L * (c - b) + L * (b - a) := add_le_add hlast hfirst
      _ = L * (c - a) := by ring
  · intro cell a b ha hb hab
    rw [h.locate_read_eq ha, h.locate_read_eq hb]
    exact h.abs_read_sub_le hs cell hab

/-- Read at the nearest number in range, data are as steep as from sample to sample. -/
theorem lipschitz_readClamped (hs : axis.Slopes L data) : Lipschitz L (axis.readClamped data) := by
  intro a b
  have hL := h.nonneg_of_slopes hs
  have hmem : ∀ v, axis.range.clamp v ∈ axis.range := fun v => h.proper_range.clamp_mem rfl
  refine le_trans ?_ (mul_le_mul_of_nonneg_left (h.proper_range.abs_clamp_sub_le a b) hL)
  unfold readClamped
  rcases le_total (axis.range.clamp a) (axis.range.clamp b) with hle | hle
  · rw [abs_sub_comm, abs_sub_comm (axis.range.clamp a), abs_of_nonneg (sub_nonneg.mpr hle)]
    exact h.abs_locate_read_sub_le hs (hmem a) (hmem b) hle
  · rw [abs_of_nonneg (sub_nonneg.mpr hle)]
    exact h.abs_locate_read_sub_le hs (hmem b) (hmem a) hle

end Increasing

/-- There is always some bound, and one for finitely many axes and data at once. -/
theorem exists_slopes {ι : Type} [Finite ι] {axes : ι → Axis ℚ} (h : ∀ i, (axes i).Increasing)
    (data : ∀ i, Fin (axes i).samples.size → ℚ) : ∃ L, ∀ i, (axes i).Slopes L (data i) := by
  let Step := Σ i, Fin (axes i).samples.size × Fin (axes i).samples.size
  let slope : Step → ℚ := fun ⟨i, p, q⟩ =>
    |data i q - data i p| / |(axes i).sample q - (axes i).sample p|
  obtain ⟨L, hL⟩ := (Set.finite_range slope).bddAbove
  refine ⟨L, fun i p q hpq => ?_⟩
  have hlt : (axes i).sample p < (axes i).sample q := (h i).lt (Fin.lt_def.mpr (by omega))
  rw [← div_le_iff₀ (abs_pos.mpr (sub_ne_zero.mpr hlt.ne'))]
  exact hL ⟨⟨i, p, q⟩, rfl⟩

/-- So readings at the nearest number in range never jump. -/
theorem Increasing.continuous_readClamped (h : axis.Increasing)
    (data : Fin axis.samples.size → ℚ) : Continuous (axis.readClamped data) := by
  obtain ⟨L, hs⟩ := exists_slopes (fun _ : Unit => h) fun _ => data
  exact (h.lipschitz_readClamped (hs ())).continuous (h.nonneg_of_slopes (hs ()))

end Axis

end DesignChart
