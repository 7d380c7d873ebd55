import Mathlib

/-!
# Rounding to 53 binary digits

A rational is rounded to a whole number of units, the nearest one and of two the even one. The unit
is that of its 53rd binary digit, or the smallest unit there is where that one is coarser. Rounding
keeps the order, the sign, and each number that has no more digits. There is no greatest number
here: what becomes of results that are too large is a matter of how they are stored.
-/

namespace DesignChart.Double

section NearestEven

/-- The integer nearest to `x`, and of two equally near ones the even one. -/
def nearestEven (x : ℚ) : ℤ :=
  if Int.fract x < 1 / 2 then ⌊x⌋
  else if 1 / 2 < Int.fract x then ⌊x⌋ + 1
  else ⌊x⌋ + ⌊x⌋ % 2

theorem floor_le_nearestEven (x : ℚ) : ⌊x⌋ ≤ nearestEven x := by
  unfold nearestEven
  split_ifs <;> omega

theorem nearestEven_le (x : ℚ) : nearestEven x ≤ ⌊x⌋ + 1 := by
  unfold nearestEven
  split_ifs <;> omega

theorem nearestEven_intCast (n : ℤ) : nearestEven n = n := by
  unfold nearestEven
  rw [Int.fract_intCast, if_pos (by norm_num), Int.floor_intCast]

theorem nearestEven_neg (x : ℚ) : nearestEven (-x) = -nearestEven x := by
  by_cases hx : Int.fract x = 0
  · have hint : x = ⌊x⌋ := by
      have h := Int.floor_add_fract x
      rw [hx, add_zero] at h
      exact h.symm
    rw [hint, ← Int.cast_neg, nearestEven_intCast, nearestEven_intCast]
  · have hfloor : ⌊-x⌋ = -⌊x⌋ - 1 := by
      have hnot : x ∉ Set.range Int.cast := by
        rintro ⟨n, rfl⟩
        exact hx (Int.fract_intCast n)
      rw [Int.floor_neg, (Int.ceil_eq_floor_add_one_iff_notMem x).mpr hnot]
      ring
    have hfract : Int.fract (-x) = 1 - Int.fract x := Int.fract_neg hx
    unfold nearestEven
    rw [hfract, hfloor]
    split_ifs <;> first | omega | linarith

theorem nearestEven_mono : Monotone nearestEven := by
  intro x y hxy
  rcases (Int.floor_mono hxy).lt_or_eq with hlt | heq
  · exact (nearestEven_le x).trans (hlt.trans_le (floor_le_nearestEven y))
  · -- in one gap between integers the place in the gap decides
    have hfract : Int.fract x ≤ Int.fract y := by
      unfold Int.fract
      rw [heq]
      exact sub_le_sub_right hxy _
    unfold nearestEven
    rw [heq]
    split_ifs <;> first | omega | linarith

end NearestEven

/-- The exponent of the unit that `x` is rounded to. -/
def unitExponent (x : ℚ) : ℤ := max (Int.log 2 |x| - 52) (-1074)

/-- The number that `x` is rounded to. -/
def rounded (x : ℚ) : ℚ := nearestEven (x / 2 ^ unitExponent x) * 2 ^ unitExponent x

section Rounded

variable {x y : ℚ}

theorem two_zpow_pos (e : ℤ) : (0 : ℚ) < 2 ^ e := zpow_pos two_pos e

theorem two_zpow_le {e f : ℤ} (h : e ≤ f) : (2 : ℚ) ^ e ≤ 2 ^ f :=
  zpow_le_zpow_right₀ one_le_two h

theorem rounded_zero : rounded 0 = 0 := by
  unfold rounded
  rw [zero_div, ← Int.cast_zero, nearestEven_intCast, Int.cast_zero, zero_mul]

theorem rounded_neg (x : ℚ) : rounded (-x) = -rounded x := by
  have hunit : unitExponent (-x) = unitExponent x := by
    unfold unitExponent
    rw [abs_neg]
  unfold rounded
  rw [hunit, neg_div, nearestEven_neg, Int.cast_neg, neg_mul]

/-- What is rounded has at most 53 digits before the unit. -/
theorem div_unit_lt (hx : 0 < x) : x / 2 ^ unitExponent x < 2 ^ 53 := by
  rw [div_lt_iff₀ (two_zpow_pos _)]
  calc x < 2 ^ (Int.log 2 x + 1) := Int.lt_zpow_succ_log_self one_lt_two x
    _ ≤ 2 ^ (53 + unitExponent x) := two_zpow_le (by
      unfold unitExponent
      rw [abs_of_pos hx]
      omega)
    _ = 2 ^ 53 * 2 ^ unitExponent x := by rw [zpow_add₀ two_ne_zero]; norm_num

/-- What is rounded to more than the smallest unit has 53 digits before it. -/
theorem le_div_unit (hx : 0 < x) (hunit : -1074 < unitExponent x) :
    2 ^ 52 ≤ x / 2 ^ unitExponent x := by
  rw [le_div_iff₀ (two_zpow_pos _)]
  calc (2 : ℚ) ^ 52 * 2 ^ unitExponent x = 2 ^ (52 + unitExponent x) := by
        rw [zpow_add₀ two_ne_zero]; norm_num
    _ ≤ 2 ^ Int.log 2 x := two_zpow_le (by
      unfold unitExponent at hunit ⊢
      rw [abs_of_pos hx] at hunit ⊢
      omega)
    _ ≤ x := Int.zpow_log_le_self one_lt_two hx

theorem nearestEven_div_unit_le (hx : 0 < x) : nearestEven (x / 2 ^ unitExponent x) ≤ 2 ^ 53 := by
  have hle := nearestEven_mono (div_unit_lt hx).le
  exact hle.trans (nearestEven_intCast (2 ^ 53)).le

theorem le_nearestEven_div_unit (hx : 0 < x) (hunit : -1074 < unitExponent x) :
    2 ^ 52 ≤ nearestEven (x / 2 ^ unitExponent x) := by
  have hle := nearestEven_mono (le_div_unit hx hunit)
  exact (nearestEven_intCast (2 ^ 52)).ge.trans hle

theorem rounded_nonneg (hx : 0 ≤ x) : 0 ≤ rounded x := by
  have hunits : 0 ≤ x / 2 ^ unitExponent x := div_nonneg hx (two_zpow_pos _).le
  have hnearest : 0 ≤ nearestEven (x / 2 ^ unitExponent x) :=
    (Int.floor_nonneg.mpr hunits).trans (floor_le_nearestEven _)
  exact mul_nonneg (Int.cast_nonneg hnearest) (two_zpow_pos _).le

theorem rounded_le_of_pos (hx : 0 < x) (hxy : x ≤ y) : rounded x ≤ rounded y := by
  have hy : 0 < y := hx.trans_le hxy
  have hlog : Int.log 2 x ≤ Int.log 2 y := Int.log_mono_right hx hxy
  have hunit : unitExponent x ≤ unitExponent y := by
    unfold unitExponent
    rw [abs_of_pos hx, abs_of_pos hy]
    omega
  rcases hunit.lt_or_eq with hlt | heq
  · -- the power of two between the two units lies between what they are rounded to
    have hhigh : (2 : ℤ) ^ 52 ≤ nearestEven (y / 2 ^ unitExponent y) := by
      refine le_nearestEven_div_unit hy (lt_of_le_of_lt ?_ hlt)
      exact le_max_right _ _
    calc rounded x ≤ 2 ^ 53 * 2 ^ unitExponent x := by
          refine mul_le_mul_of_nonneg_right ?_ (two_zpow_pos _).le
          exact_mod_cast nearestEven_div_unit_le hx
      _ = 2 ^ (53 + unitExponent x) := by rw [zpow_add₀ two_ne_zero]; norm_num
      _ ≤ 2 ^ (52 + unitExponent y) := two_zpow_le (by omega)
      _ = 2 ^ 52 * 2 ^ unitExponent y := by rw [zpow_add₀ two_ne_zero]; norm_num
      _ ≤ rounded y := by
          refine mul_le_mul_of_nonneg_right ?_ (two_zpow_pos _).le
          exact_mod_cast hhigh
  · unfold rounded
    rw [heq]
    refine mul_le_mul_of_nonneg_right ?_ (two_zpow_pos _).le
    exact Int.cast_le.mpr (nearestEven_mono (div_le_div_of_nonneg_right hxy (two_zpow_pos _).le))

theorem rounded_mono : Monotone rounded := by
  intro x y hxy
  rcases lt_trichotomy x 0 with hx | rfl | hx
  · rcases lt_or_ge y 0 with hy | hy
    · have hneg := rounded_le_of_pos (neg_pos.mpr hy) (neg_le_neg hxy)
      rw [rounded_neg, rounded_neg] at hneg
      exact neg_le_neg_iff.mp hneg
    · have hneg := rounded_nonneg (neg_pos.mpr hx).le
      rw [rounded_neg] at hneg
      exact (neg_nonneg.mp hneg).trans (rounded_nonneg hy)
  · rw [rounded_zero]
    exact rounded_nonneg hxy
  · exact rounded_le_of_pos hx hxy

theorem rounded_abs (x : ℚ) : rounded |x| = |rounded x| := by
  rcases le_total 0 x with hx | hx
  · rw [abs_of_nonneg hx, abs_of_nonneg (rounded_nonneg hx)]
  · have hneg := rounded_nonneg (neg_nonneg.mpr hx)
    rw [rounded_neg] at hneg
    rw [abs_of_nonpos hx, rounded_neg, abs_of_nonpos (neg_nonneg.mp hneg)]

theorem abs_rounded_le (h : |x| ≤ |y|) : |rounded x| ≤ |rounded y| := by
  rw [← rounded_abs, ← rounded_abs]
  exact rounded_mono h

/-- A number of at most 53 digits is kept. -/
theorem rounded_of_digits {m e : ℤ} (hm : |m| < 2 ^ 53) (he : -1074 ≤ e) :
    rounded (m * 2 ^ e) = m * 2 ^ e := by
  by_cases hzero : m = 0
  · rw [hzero, Int.cast_zero, zero_mul, rounded_zero]
  have habs : |(m : ℚ) * 2 ^ e| = |m| * 2 ^ e := by
    rw [abs_mul, abs_of_pos (two_zpow_pos e), Int.cast_abs]
  have hpos : (0 : ℚ) < |m| * 2 ^ e :=
    mul_pos (by exact_mod_cast abs_pos.mpr hzero) (two_zpow_pos e)
  have hlog : Int.log 2 |(m : ℚ) * 2 ^ e| < 53 + e := by
    rw [habs, ← Int.lt_zpow_iff_log_lt one_lt_two hpos, Nat.cast_ofNat, zpow_add₀ two_ne_zero]
    refine mul_lt_mul_of_pos_right ?_ (two_zpow_pos e)
    exact_mod_cast hm
  obtain ⟨k, hk⟩ : ∃ k : ℕ, e = k + unitExponent (m * 2 ^ e) := by
    refine ⟨(e - unitExponent (m * 2 ^ e)).toNat, ?_⟩
    unfold unitExponent
    omega
  have hunits : (m : ℚ) * 2 ^ e / 2 ^ unitExponent (m * 2 ^ e) = ((m * 2 ^ k : ℤ) : ℚ) := by
    rw [div_eq_iff (two_zpow_pos _).ne']
    nth_rewrite 1 [hk]
    rw [zpow_add₀ two_ne_zero]
    push_cast
    rw [zpow_natCast]
    ring
  unfold rounded
  rw [hunits, nearestEven_intCast, ← hunits, div_mul_cancel₀ _ (two_zpow_pos _).ne']

end Rounded

end DesignChart.Double
