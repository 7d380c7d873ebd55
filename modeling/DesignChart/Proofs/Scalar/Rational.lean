import Mathlib
import DesignChart.Proofs.Scalar.Order

/-!
# Exact arithmetic

Tables read over the rationals: every number is finite, none is NaN, and the operations are those
of the field.
-/

namespace DesignChart

instance : Scalar ℚ where
  decidableLE := inferInstance
  decidableLT := inferInstance
  isFinite _ := true
  isNaN _ := false

instance : LawfulScalar ℚ where
  le_trans hab hbc := le_trans hab hbc
  lt_iff_le_not_ge := lt_iff_le_not_ge
  le_total _ _ := le_total _ _
  isNaN_of_le _ := ⟨rfl, rfl⟩
  isNaN_of_isFinite _ := rfl

theorem blend_eq (start stop t : ℚ) : blend start stop t = (1 - t) * start + t * stop := rfl

@[simp]
theorem blend_zero (start stop : ℚ) : blend start stop 0 = start := by
  rw [blend_eq]
  ring

@[simp]
theorem blend_one (start stop : ℚ) : blend start stop 1 = stop := by
  rw [blend_eq]
  ring

/-- What stands for a number without a weight makes no difference. -/
theorem blend_weighted {t : ℚ} (ht : 0 ≤ t ∧ t ≤ 1) (start stop : ℚ) :
    blend (if t < 1 then start else 0) (if 0 < t then stop else 0) t = blend start stop t := by
  rcases ht.1.eq_or_lt with rfl | hpos
  · rw [blend_zero, blend_zero, if_pos one_pos]
  rcases ht.2.eq_or_lt with rfl | hlt
  · rw [blend_one, blend_one, if_pos one_pos]
  · rw [if_pos hlt, if_pos hpos]

/-- A weighted mean is not less than what neither of its two numbers is less than. -/
theorem le_blend {m start stop t : ℚ} (hnonneg : 0 ≤ t) (hle : t ≤ 1) (hstart : m ≤ start)
    (hstop : m ≤ stop) : m ≤ blend start stop t := by
  have hrest : 0 ≤ 1 - t := sub_nonneg.mpr hle
  calc
    m = (1 - t) * m + t * m := by ring
    _ ≤ (1 - t) * start + t * stop := by gcongr

theorem blend_le {m start stop t : ℚ} (hnonneg : 0 ≤ t) (hle : t ≤ 1) (hstart : start ≤ m)
    (hstop : stop ≤ m) : blend start stop t ≤ m := by
  have hrest : 0 ≤ 1 - t := sub_nonneg.mpr hle
  calc
    (1 - t) * start + t * stop ≤ (1 - t) * m + t * m := by gcongr
    _ = m := by ring

/-- A mean grows with each of the numbers it is made of. -/
theorem blend_le_blend {a a' b b' t : ℚ} (ht : 0 ≤ t ∧ t ≤ 1) (ha : a ≤ a') (hb : b ≤ b') :
    blend a b t ≤ blend a' b' t := by
  have hpos : 0 ≤ t := ht.1
  have hrest : 0 ≤ 1 - t := sub_nonneg.mpr ht.2
  rw [blend_eq, blend_eq]
  gcongr

theorem blend_sub_blend (start stop s t : ℚ) :
    blend start stop t - blend start stop s = (t - s) * (stop - start) := by
  rw [blend_eq, blend_eq]
  ring

/-- The chord between two points of a line is that line. -/
theorem blend_blend {x₀ x₁ s t : ℚ} (hx : x₀ ≠ x₁) (hst : s ≠ t) (y₀ y₁ v : ℚ) :
    blend (blend y₀ y₁ s) (blend y₀ y₁ t)
        ((v - blend x₀ x₁ s) / (blend x₀ x₁ t - blend x₀ x₁ s)) =
      blend y₀ y₁ ((v - x₀) / (x₁ - x₀)) := by
  have hx' : x₁ - x₀ ≠ 0 := sub_ne_zero.mpr hx.symm
  have hst' : t - s ≠ 0 := sub_ne_zero.mpr hst.symm
  rw [blend_sub_blend]
  simp only [blend_eq]
  field_simp
  ring

theorem blend_mem_uIcc {t : ℚ} (ht : 0 ≤ t ∧ t ≤ 1) (start stop : ℚ) :
    blend start stop t ∈ Set.uIcc start stop :=
  ⟨le_blend ht.1 ht.2 inf_le_left inf_le_right, blend_le ht.1 ht.2 le_sup_left le_sup_right⟩

end DesignChart
