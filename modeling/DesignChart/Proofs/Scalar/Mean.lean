import Mathlib
import DesignChart.Proofs.Scalar.Arithmetic

/-!
# Means of doubles

The place of a number between two others is a quotient of differences, and lies from zero to one. It
fails to be a number only where the difference from the first is too large for a double: so is the
difference of the two then, and an infinity is divided by an infinity. A place from zero to one
makes a mean of finite numbers that is a number.
-/

namespace DesignChart.Double

open Float.Model (UnpackedFloat)
open Float.Model.UnpackedFloat (Sign)

variable {a b v t : Float}

theorem rounded_number (h : v.isFinite = true) : rounded (number v) = number v :=
  (proper_decoded h).rounded_value

theorem exists_infinity (hnum : v.isNaN = false) (hfinite : v.isFinite = false) :
    ∃ s, decoded v = .infinity s := by
  rw [← isNaN_decoded] at hnum
  change (decoded v).isFinite = false at hfinite
  cases hv : decoded v with
  | notANumber => simp [hv, UnpackedFloat.isNaN] at hnum
  | infinity s => exact ⟨s, rfl⟩
  | zero s => simp [hv, UnpackedFloat.isFinite] at hfinite
  | finite s m e hm => simp [hv, UnpackedFloat.isFinite] at hfinite

/-- What lies between finite doubles is finite. -/
theorem isFinite_of_between (ha : a.isFinite = true) (hb : b.isFinite = true) (hav : a ≤ v)
    (hvb : v ≤ b) : v.isFinite = true := by
  by_contra hv
  rw [Bool.not_eq_true] at hv
  obtain ⟨hnum, -, hlow⟩ := le_iff.mp hvb
  obtain ⟨-, -, hhigh⟩ := le_iff.mp hav
  obtain ⟨s, hs⟩ := exists_infinity hnum hv
  rw [hs] at hlow hhigh
  cases s with
  | positive =>
    rcases (proper_decoded hb).zero_or_finite with ⟨t, hb⟩ | ⟨t, m, e, hm, hb, -⟩
    · simp [hb, rank, Sign.apply, Prod.Lex.toLex_le_toLex] at hlow
    · cases t <;> simp [hb, rank, Sign.apply, Prod.Lex.toLex_le_toLex] at hlow
  | negative =>
    rcases (proper_decoded ha).zero_or_finite with ⟨t, ha⟩ | ⟨t, m, e, hm, ha, -⟩
    · simp [ha, rank, Sign.apply, Prod.Lex.toLex_le_toLex] at hhigh
    · cases t <;> simp [ha, rank, Sign.apply, Prod.Lex.toLex_le_toLex] at hhigh

theorem isFinite_zero : (0 : Float).isFinite = true := by decide +kernel

theorem isFinite_one : (1 : Float).isFinite = true := by decide +kernel

theorem number_zero : number 0 = 0 := rfl

theorem number_one : number 1 = 1 := by
  have hone : decoded 1 = .finite .positive (2 ^ 52) (-52) (by decide) := by rfl
  unfold number
  rw [hone]
  norm_num [value, signed]

theorem Stores.isFinite_of_abs_le {x : ℚ} (h : Stores v x) (ha : a.isFinite = true)
    (hle : |x| ≤ |number a|) : v.isFinite = true := by
  rw [h.isFinite_iff]
  calc |rounded x| ≤ |rounded (number a)| := abs_rounded_le hle
    _ = |number a| := congrArg abs (rounded_number ha)
    _ < limit := abs_number_lt ha

/-- What is divided by an infinity vanishes. -/
theorem number_div_infinity {s : Sign} (ha : a.isFinite = true) (hb : decoded b = .infinity s) :
    (a / b).isFinite = true ∧ number (a / b) = 0 := by
  have hquotient : ∃ t, decoded (a / b) = .zero t := by
    show ∃ t, (Float.Model.pack ((decoded a).div .binary64 (decoded b))).unpack = .zero t
    rw [hb]
    rcases (proper_decoded ha).zero_or_finite with ⟨t, hv⟩ | ⟨t, m, e, hm, hv, -⟩
    · rw [hv]
      exact ⟨t / s, unpack_pack_zero (t / s)⟩
    · rw [hv]
      exact ⟨t / s, unpack_pack_zero (t / s)⟩
  obtain ⟨t, ht⟩ := hquotient
  constructor
  · show (decoded (a / b)).isFinite = true
    rw [ht]
    rfl
  · unfold number
    rw [ht]
    rfl

section Place

variable (ha : a.isFinite = true) (hb : b.isFinite = true) (hv : v.isFinite = true)
include ha hb

/-- Doubles that differ are the least unit apart, which is not lost by rounding. -/
theorem rounded_sub_pos (hab : a < b) : 0 < rounded (number b - number a) := by
  have hlt : number a < number b := by
    rw [← not_le, number_le_number_iff hb ha]
    exact Scalar.not_le_of_lt hab
  obtain ⟨n, hn⟩ := exists_number_eq ha
  obtain ⟨k, hk⟩ := exists_number_eq hb
  have hunit : (0 : ℚ) < 2 ^ (-1074 : ℤ) := two_zpow_pos _
  rw [hn, hk, mul_lt_mul_iff_of_pos_right hunit, Int.cast_lt] at hlt
  have hone : ((1 : ℤ) : ℚ) * 2 ^ (-1074 : ℤ) ≤ number b - number a := by
    rw [hn, hk, ← sub_mul, ← Int.cast_sub, mul_le_mul_iff_of_pos_right hunit, Int.cast_le]
    omega
  calc (0 : ℚ) < (1 : ℤ) * 2 ^ (-1074 : ℤ) := mul_pos (Int.cast_pos.mpr Int.one_pos) hunit
    _ = rounded ((1 : ℤ) * 2 ^ (-1074 : ℤ)) := (rounded_of_digits (by decide) le_rfl).symm
    _ ≤ rounded (number b - number a) := rounded_mono hone

include hv

/-- What lies between has a difference no greater. -/
theorem rounded_sub_mem (hav : a ≤ v) (hvb : v ≤ b) :
    0 ≤ rounded (number v - number a) ∧
      rounded (number v - number a) ≤ rounded (number b - number a) := by
  have hav : number a ≤ number v := (number_le_number_iff ha hv).mpr hav
  have hvb : number v ≤ number b := (number_le_number_iff hv hb).mpr hvb
  exact ⟨rounded_nonneg (sub_nonneg.mpr hav), rounded_mono (sub_le_sub_right hvb _)⟩

theorem isFinite_sub_of_between (hav : a ≤ v) (hvb : v ≤ b) (h : (b - a).isFinite = true) :
    (v - a).isFinite = true := by
  obtain ⟨hnonneg, hle⟩ := rounded_sub_mem ha hb hv hav hvb
  rw [(stores_sub hb ha).isFinite_iff, abs_of_nonneg (hnonneg.trans hle)] at h
  rw [(stores_sub hv ha).isFinite_iff, abs_of_nonneg hnonneg]
  exact hle.trans_lt h

theorem number_place_mem (hab : a < b) (hav : a ≤ v) (hvb : v ≤ b)
    (h : (v - a).isFinite = true) :
    ((v - a) / (b - a)).isFinite = true ∧
      0 ≤ number ((v - a) / (b - a)) ∧ number ((v - a) / (b - a)) ≤ 1 := by
  by_cases hlength : (b - a).isFinite = true
  · obtain ⟨hnonneg, hle⟩ := rounded_sub_mem ha hb hv hav hvb
    have hpos := rounded_sub_pos ha hb hab
    rw [← (stores_sub hv ha).number_eq h] at hnonneg hle
    rw [← (stores_sub hb ha).number_eq hlength] at hle hpos
    have hquotient : 0 ≤ number (v - a) / number (b - a) := div_nonneg hnonneg hpos.le
    have hone : number (v - a) / number (b - a) ≤ number 1 := by
      rw [number_one]
      exact (div_le_one hpos).mpr hle
    have hstores := stores_div h hlength hpos.ne'
    have hfinite := hstores.isFinite_of_abs_le isFinite_one (abs_le_abs_of_nonneg hquotient hone)
    rw [hstores.number_eq hfinite, ← number_one, ← rounded_number isFinite_one]
    exact ⟨hfinite, rounded_nonneg hquotient, rounded_mono hone⟩
  · -- over a length too great for a double the place is a zero
    rw [Bool.not_eq_true] at hlength
    obtain ⟨s, hs⟩ := exists_infinity (stores_sub hb ha).isNaN hlength
    obtain ⟨hfinite, hzero⟩ := number_div_infinity h hs
    rw [hzero]
    exact ⟨hfinite, le_rfl, zero_le_one⟩

/-- A difference that can be stored gives a place from zero to one. -/
theorem place_mem (hab : a < b) (hav : a ≤ v) (hvb : v ≤ b) (h : (v - a).isFinite = true) :
    ((v - a) / (b - a)).isFinite = true ∧ 0 ≤ (v - a) / (b - a) ∧ (v - a) / (b - a) ≤ 1 := by
  obtain ⟨hfinite, hnonneg, hone⟩ := number_place_mem ha hb hv hab hav hvb h
  rw [← number_zero, number_le_number_iff isFinite_zero hfinite] at hnonneg
  rw [← number_one, number_le_number_iff hfinite isFinite_one] at hone
  exact ⟨hfinite, hnonneg, hone⟩

/-- A difference too large for a double gives no place. -/
theorem isNaN_place (hav : a ≤ v) (hvb : v ≤ b) (h : (v - a).isFinite = false) :
    ((v - a) / (b - a)).isNaN = true := by
  have hlength : (b - a).isFinite = false := by
    by_contra hfinite
    rw [Bool.not_eq_false] at hfinite
    rw [isFinite_sub_of_between ha hb hv hav hvb hfinite] at h
    cases h
  obtain ⟨s, hs⟩ := exists_infinity (stores_sub hv ha).isNaN h
  obtain ⟨t, ht⟩ := exists_infinity (stores_sub hb ha).isNaN hlength
  show (Float.Model.pack ((decoded (v - a)).div .binary64 (decoded (b - a)))).unpack.isNaN = true
  rw [hs, ht]
  show (Float.Model.pack .notANumber).unpack.isNaN = true
  decide +kernel

end Place

/-- A product with a factor of at most one can be stored. -/
theorem isFinite_mul (ht : t.isFinite = true) (ha : a.isFinite = true) (h : |number t| ≤ 1) :
    (t * a).isFinite = true := by
  refine (stores_mul ht ha).isFinite_of_abs_le ha ?_
  rw [abs_mul]
  exact mul_le_of_le_one_left (abs_nonneg _) h

/-- A place from zero to one makes a mean that is a number. -/
theorem isNaN_blend (ha : a.isFinite = true) (hb : b.isFinite = true) (ht : t.isFinite = true)
    (hnonneg : 0 ≤ t) (hone : t ≤ 1) : (blend a b t).isNaN = false := by
  rw [← number_le_number_iff isFinite_zero ht, number_zero] at hnonneg
  rw [← number_le_number_iff ht isFinite_one] at hone
  have hstores := stores_sub isFinite_one ht
  have hrest : 0 ≤ number 1 - number t := sub_nonneg.mpr hone
  have hle : number 1 - number t ≤ number 1 := sub_le_self _ hnonneg
  have hfinite := hstores.isFinite_of_abs_le isFinite_one (abs_le_abs_of_nonneg hrest hle)
  have hweight : |number (1 - t)| ≤ 1 := by
    calc |number (1 - t)| = rounded (number 1 - number t) := by
          rw [hstores.number_eq hfinite, abs_of_nonneg (rounded_nonneg hrest)]
      _ ≤ rounded (number 1) := rounded_mono hle
      _ = 1 := (rounded_number isFinite_one).trans number_one
  have hweight' : |number t| ≤ 1 := by
    rw [abs_of_nonneg hnonneg, ← number_one]
    exact hone
  exact (stores_add (isFinite_mul hfinite ha hweight) (isFinite_mul ht hb hweight')).isNaN

end DesignChart.Double
