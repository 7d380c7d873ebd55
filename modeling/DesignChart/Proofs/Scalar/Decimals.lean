import DesignChart.Decimal.Shortest
import DesignChart.Proofs.Scalar.Decoded
import DesignChart.Proofs.Scalar.Significand

/-!
# Finite doubles are read back from their decimals

Rounding to the nearest magnitude takes the fraction in units of the last digit. A fraction that is
the number of a magnitude is a whole number of these, the significand, and so is kept. Hence a
magnitude that is written out in full is read back, and the shorter decimals are only taken where
they are read back as well.
-/

namespace DesignChart.Double

/-- A canonical number is stored in its own units. -/
theorem Canonical.unitExponent_eq {m : ℕ} {e : ℤ} (h : Canonical m e) (hm : 0 < m) :
    unitExponent (m * 2 ^ e) = e := by
  have hpos : (0 : ℚ) < m * 2 ^ e := magnitude_pos hm
  have hlt : Int.log 2 ((m : ℚ) * 2 ^ e) < 53 + e :=
    (Int.lt_zpow_iff_log_lt one_lt_two hpos).mp h.magnitude_lt
  have hle := h.le
  unfold unitExponent
  rw [abs_of_pos hpos]
  rcases eq_or_lt_of_le hle with heq | hgt
  · omega
  · have hge : 52 + e ≤ Int.log 2 ((m : ℚ) * 2 ^ e) :=
      (Int.zpow_le_iff_le_log one_lt_two hpos).mp (h.le_magnitude hgt)
    omega

end DesignChart.Double

namespace DesignChart.Binary64

open Double

section Rounding

variable {num den : ℕ}

theorem exists_power {base : ℕ} (h : 0 < base) (e : ℤ) :
    ∃ n d : ℕ, power base e = (n, d) ∧ 0 < n ∧ 0 < d ∧ (n : ℚ) / d = (base : ℚ) ^ e := by
  unfold power
  split_ifs with he
  · refine ⟨_, _, rfl, Nat.pow_pos h, Nat.one_pos, ?_⟩
    obtain ⟨k, rfl⟩ := Int.eq_ofNat_of_zero_le he
    simp
  · refine ⟨_, _, rfl, Nat.one_pos, Nat.pow_pos h, ?_⟩
    obtain ⟨k, rfl⟩ : ∃ k : ℕ, e = -k := ⟨(-e).toNat, by omega⟩
    simp

theorem log_eq {x : ℚ} {e : ℤ} (hle : (2 : ℚ) ^ e ≤ x) (hlt : x < 2 ^ (e + 1)) :
    Int.log 2 x = e := by
  have hx : 0 < x := (two_zpow_pos e).trans_le hle
  refine le_antisymm ?_ ((Int.zpow_le_iff_le_log one_lt_two hx).mp hle)
  exact Int.lt_add_one_iff.mp ((Int.lt_zpow_iff_log_lt one_lt_two hx).mp hlt)

theorem two_pow_log2_le (hnum : 0 < num) : (2 : ℚ) ^ (num.log2 : ℤ) ≤ num := by
  rw [zpow_natCast]
  exact_mod_cast Nat.log2_self_le hnum.ne'

theorem lt_two_pow_log2 (num : ℕ) : (num : ℚ) < 2 ^ ((num.log2 : ℤ) + 1) := by
  exact_mod_cast Nat.lt_log2_self (n := num)

/-- The two logarithms bound that of the fraction up to one. -/
theorem floorLog2_eq (hnum : 0 < num) (hden : 0 < den) :
    floorLog2 num den = Int.log 2 ((num : ℚ) / den) := by
  have hd : (0 : ℚ) < den := Nat.cast_pos.mpr hden
  have hlow : (2 : ℚ) ^ ((num.log2 : ℤ) - den.log2 - 1) ≤ num / den := by
    rw [le_div_iff₀ hd]
    calc (2 : ℚ) ^ ((num.log2 : ℤ) - den.log2 - 1) * den
        ≤ 2 ^ ((num.log2 : ℤ) - den.log2 - 1) * 2 ^ ((den.log2 : ℤ) + 1) :=
          mul_le_mul_of_nonneg_left (lt_two_pow_log2 den).le (two_zpow_pos _).le
      _ = 2 ^ (num.log2 : ℤ) := by
          rw [← zpow_add₀ two_ne_zero]
          congr 1
          ring
      _ ≤ num := two_pow_log2_le hnum
  have hhigh : (num : ℚ) / den < 2 ^ ((num.log2 : ℤ) - den.log2 + 1) := by
    rw [div_lt_iff₀ hd]
    calc (num : ℚ) < 2 ^ ((num.log2 : ℤ) + 1) := lt_two_pow_log2 num
      _ = 2 ^ ((num.log2 : ℤ) - den.log2 + 1) * 2 ^ (den.log2 : ℤ) := by
          rw [← zpow_add₀ two_ne_zero]
          congr 1
          ring
      _ ≤ 2 ^ ((num.log2 : ℤ) - den.log2 + 1) * den :=
          mul_le_mul_of_nonneg_left (two_pow_log2_le hden) (two_zpow_pos _).le
  obtain ⟨n, d, hpower, hn, hd', hvalue⟩ := exists_power two_pos ((num.log2 : ℤ) - den.log2)
  have hguess : num * d < den * n ↔ (num : ℚ) / den < 2 ^ ((num.log2 : ℤ) - den.log2) := by
    rw [Nat.cast_ofNat] at hvalue
    rw [← hvalue, div_lt_div_iff₀ hd (Nat.cast_pos.mpr hd'), mul_comm (n : ℚ)]
    exact_mod_cast Iff.rfl
  unfold floorLog2
  simp only [hpower]
  split_ifs with hless
  · refine (log_eq hlow ?_).symm
    rw [sub_add_cancel]
    exact hguess.mp hless
  · exact (log_eq (not_lt.mp (hguess.not.mp hless)) hhigh).symm

theorem roundHalfEven_mul (m : ℕ) (hden : 0 < den) : roundHalfEven (m * den) den = m := by
  unfold roundHalfEven
  simp only [Nat.mul_div_cancel m hden, Nat.mul_mod_left]
  rw [if_pos (by omega)]

/-- A whole number of units is kept. -/
theorem nearest_eq {m : ℕ} (hnum : 0 < num) (hden : 0 < den)
    (h : (num : ℚ) / den = m * 2 ^ unitExponent ((num : ℚ) / den)) :
    nearest num den = min (pack m (unitExponent ((num : ℚ) / den))) infinity := by
  have hpos : (0 : ℚ) < num / den := div_pos (Nat.cast_pos.mpr hnum) (Nat.cast_pos.mpr hden)
  have hunit : max (floorLog2 num den - 52) (-1074) = unitExponent ((num : ℚ) / den) := by
    unfold unitExponent
    rw [floorLog2_eq hnum hden, abs_of_pos hpos]
  obtain ⟨n, d, hpower, hn, hd, hvalue⟩ := exists_power two_pos (unitExponent ((num : ℚ) / den))
  have hwhole : num * d = m * (den * n) := by
    rw [Nat.cast_ofNat] at hvalue
    rw [← hvalue] at h
    have hd' : (d : ℚ) ≠ 0 := Nat.cast_ne_zero.mpr hd.ne'
    have hden' : (den : ℚ) ≠ 0 := Nat.cast_ne_zero.mpr hden.ne'
    field_simp at h
    rw [← Nat.cast_inj (R := ℚ)]
    push_cast
    linarith
  unfold nearest
  simp only [hunit, hpower]
  rw [hwhole, roundHalfEven_mul m (Nat.mul_pos hden hn)]

end Rounding

section Magnitude

variable {bits : ℕ}

theorem canonical_magnitude (bits : ℕ) : Canonical (significand bits) (exponent bits) := by
  unfold significand exponent
  have hmod := Nat.mod_lt bits (show 0 < 1 <<< 52 by decide)
  split_ifs with hzero
  · rw [Nat.shiftRight_eq_div_pow] at hzero
    exact ⟨by omega, by omega, Or.inr rfl⟩
  · exact ⟨by omega, by omega, Or.inl (by omega)⟩

theorem significand_pos (h : 0 < bits) : 0 < significand bits := by
  unfold significand
  split_ifs
  · exact h
  · exact Nat.add_pos_left (by decide) _

theorem exponent_le (h : bits < infinity) : exponent bits ≤ 971 := by
  have hinfinity : infinity = 2047 * 2 ^ 52 := rfl
  unfold exponent
  rw [Nat.shiftRight_eq_div_pow]
  split_ifs <;> omega

theorem pack_magnitude (bits : ℕ) : pack (significand bits) (exponent bits) = bits := by
  unfold pack significand exponent
  split_ifs with hzero
  · rw [show ((-1074 : ℤ) + 1074).toNat = 0 from rfl, Nat.zero_shiftLeft, zero_add]
  · rw [Nat.shiftLeft_eq, Nat.shiftRight_eq_div_pow]
    rw [Nat.shiftRight_eq_div_pow] at hzero
    have hexponent : (((bits / 2 ^ 52 : ℕ) : ℤ) - 1075 + 1074).toNat = bits / 2 ^ 52 - 1 := by omega
    have hone : (1 <<< 52 : ℕ) = 2 ^ 52 := rfl
    rw [hexponent, hone]
    omega

/-- The number that a magnitude stands for is read as that magnitude. -/
theorem nearest_magnitude {num den : ℕ} (hbits : bits < infinity) (hzero : 0 < bits)
    (hden : 0 < den) (h : (num : ℚ) / den = significand bits * 2 ^ exponent bits) :
    nearest num den = bits := by
  have hcanonical := canonical_magnitude bits
  have hsignificand := significand_pos hzero
  have hnum : 0 < num := by
    rw [Nat.pos_iff_ne_zero]
    rintro rfl
    rw [Nat.cast_zero, zero_div] at h
    exact (magnitude_pos hsignificand).ne h
  have hunit : unitExponent ((num : ℚ) / den) = exponent bits := by
    rw [h, hcanonical.unitExponent_eq hsignificand]
  have hwhole : (num : ℚ) / den = significand bits * 2 ^ unitExponent ((num : ℚ) / den) := by
    rw [hunit, h]
  rw [nearest_eq hnum hden hwhole, hunit, pack_magnitude, min_eq_left hbits.le]

end Magnitude

section Stored

variable {v : Float}

/-- A double is its sign and its magnitude. -/
theorem ofMagnitude_magnitude (v : Float) : ofMagnitude (isNegative v) (magnitude v) = v := by
  have hsize : v.toBits.toNat < 2 ^ 64 := v.toBits.toNat_lt
  have hsign : signBit = 2 ^ 63 := rfl
  have hbits : (if isNegative v then signBit + magnitude v else magnitude v) = v.toBits.toNat := by
    unfold isNegative magnitude
    rw [hsign]
    by_cases hnegative : 2 ^ 63 ≤ v.toBits.toNat
    · rw [decide_eq_true hnegative, if_pos rfl]
      omega
    · rw [decide_eq_false hnegative, if_neg Bool.false_ne_true]
      omega
  unfold ofMagnitude
  rw [hbits, UInt64.ofNat_toNat, Float.ofBits_toBits]

/-- The upper bits of a magnitude are those that are decoded as the exponent. -/
theorem toNat_exponentBits (v : Float) :
    (v.toBits.toBitVec.extractLsb 62 52).toNat = magnitude v / 2 ^ 52 := by
  have hsign : signBit = 2 ^ 63 := rfl
  rw [BitVec.extractLsb_toNat, Nat.shiftRight_eq_div_pow]
  unfold magnitude
  rw [hsign]
  change v.toBits.toNat / 2 ^ 52 % 2 ^ 11 = _
  omega

theorem magnitude_lt_infinity (h : v.isFinite = true) : magnitude v < infinity := by
  have hinfinity : infinity = 2047 * 2 ^ 52 := rfl
  have hsign : signBit = 2 ^ 63 := rfl
  by_contra hge
  have hones : v.toBits.toBitVec.extractLsb 62 52 = -1#11 := by
    refine BitVec.eq_of_toNat_eq ((toNat_exponentBits v).trans ?_)
    have hlt : magnitude v < signBit := Nat.mod_lt _ (by decide)
    change magnitude v / 2 ^ 52 = 2047
    omega
  have hdecoded : (decoded v).isFinite = false := by
    change (Float.Model.UnpackedFloat.unpack .binary64 v.toBits.toBitVec).isFinite = false
    unfold Float.Model.UnpackedFloat.unpack
    dsimp only
    split_ifs with hall hempty
    · rfl
    · rfl
    all_goals exact absurd hones hall
  exact Bool.false_ne_true (hdecoded.symm.trans h)

end Stored

end DesignChart.Binary64

namespace DesignChart.Decimal

open Binary64 Double

/-- The number that a decimal stands for, without its sign. -/
def value (d : Decimal) : ℚ := d.digits * 10 ^ d.exponent

section Value

variable {d : Decimal}

theorem lt_pow_digitCount (n : ℕ) : n < 10 ^ digitCount n :=
  (Nat.length_toDigits_le_iff (by decide) (List.length_pos_of_ne_nil Nat.toDigits_ne_nil)).mp le_rfl

theorem pow_le_of_digitCount {n k : ℕ} (hn : 0 < n) (h : digitCount n = k + 1) : 10 ^ k ≤ n := by
  rcases Nat.eq_zero_or_pos k with rfl | hk
  · exact hn
  · by_contra hlt
    have hle := (Nat.length_toDigits_le_iff (by decide) hk).mpr (not_le.mp hlt)
    have hlength : (Nat.toDigits 10 n).length = k + 1 := h
    omega

theorem exists_digitCount (n : ℕ) : ∃ k, digitCount n = k + 1 :=
  Nat.exists_eq_succ_of_ne_zero (List.length_pos_of_ne_nil Nat.toDigits_ne_nil).ne'

theorem leadingExponent_le (h : 0 < d.digits) : (10 : ℚ) ^ d.leadingExponent ≤ d.value := by
  obtain ⟨k, hk⟩ := exists_digitCount d.digits
  have hle := pow_le_of_digitCount h hk
  have hleading : d.leadingExponent = k + d.exponent := by
    unfold leadingExponent
    omega
  unfold value
  rw [hleading, zpow_add₀ (by norm_num), zpow_natCast]
  refine mul_le_mul_of_nonneg_right ?_ (zpow_pos (by norm_num) _).le
  exact_mod_cast hle

theorem value_lt (d : Decimal) : d.value < 10 ^ (d.leadingExponent + 1) := by
  have hlt := lt_pow_digitCount d.digits
  have hleading : d.leadingExponent + 1 = digitCount d.digits + d.exponent := by
    unfold leadingExponent
    omega
  unfold value
  rw [hleading, zpow_add₀ (by norm_num), zpow_natCast]
  refine mul_lt_mul_of_pos_right ?_ (zpow_pos (by norm_num) _)
  exact_mod_cast hlt

theorem limit_le : limit ≤ (10 : ℚ) ^ (310 : ℤ) := by
  have hnat : 2 ^ 1024 ≤ 10 ^ 310 := by decide +kernel
  have hcast : ((2 ^ 1024 : ℕ) : ℚ) ≤ (10 ^ 310 : ℕ) := Nat.cast_le.mpr hnat
  rwa [Nat.cast_pow, Nat.cast_pow, Nat.cast_ofNat, Nat.cast_ofNat] at hcast

theorem ten_zpow_le_least : (10 : ℚ) ^ (-330 : ℤ) ≤ 2 ^ (-1074 : ℤ) := by
  have hnat : 2 ^ 1074 ≤ 10 ^ 330 := by decide +kernel
  have hcast : ((2 ^ 1074 : ℕ) : ℚ) ≤ (10 ^ 330 : ℕ) := Nat.cast_le.mpr hnat
  rw [Nat.cast_pow, Nat.cast_pow, Nat.cast_ofNat, Nat.cast_ofNat] at hcast
  rw [zpow_neg, zpow_neg]
  exact inv_anti₀ (two_zpow_pos 1074) hcast

/-- A decimal that is the number of a finite magnitude is read as that magnitude. -/
theorem magnitude_eq {bits : ℕ} (hbits : bits < infinity) (hzero : 0 < bits)
    (h : d.value = significand bits * 2 ^ Binary64.exponent bits) : d.magnitude = bits := by
  have hcanonical := canonical_magnitude bits
  have hsignificand := significand_pos hzero
  have hpos : 0 < d.value := h ▸ magnitude_pos hsignificand
  have hdigits : 0 < d.digits := by
    rw [Nat.pos_iff_ne_zero]
    intro hnone
    unfold value at hpos
    rw [hnone, Nat.cast_zero, zero_mul] at hpos
    exact hpos.false
  have hhigh : ¬ 310 ≤ d.leadingExponent := by
    intro hle
    have hlimit : d.value < limit :=
      h ▸ hcanonical.magnitude_lt_limit_iff.mpr (exponent_le hbits)
    refine absurd hlimit (not_lt.mpr ?_)
    calc limit ≤ (10 : ℚ) ^ (310 : ℤ) := limit_le
      _ ≤ 10 ^ d.leadingExponent := zpow_le_zpow_right₀ (by norm_num) hle
      _ ≤ d.value := leadingExponent_le hdigits
  have hlow : ¬ d.leadingExponent < -330 := by
    intro hlt
    have hvalue := d.value_lt
    refine absurd hvalue (not_lt.mpr ?_)
    calc (10 : ℚ) ^ (d.leadingExponent + 1) ≤ 10 ^ (-330 : ℤ) :=
          zpow_le_zpow_right₀ (by norm_num) (by omega)
      _ ≤ 2 ^ (-1074 : ℤ) := ten_zpow_le_least
      _ ≤ 2 ^ Binary64.exponent bits := two_zpow_le hcanonical.le
      _ ≤ significand bits * 2 ^ Binary64.exponent bits :=
          le_mul_of_one_le_left (two_zpow_pos _).le (by exact_mod_cast hsignificand)
      _ = d.value := h.symm
  obtain ⟨n, m, hpower, hn, hm, hfraction⟩ := exists_power (show 0 < 10 by decide) d.exponent
  unfold magnitude
  rw [if_neg hdigits.ne', if_neg hhigh, if_neg hlow]
  simp only [hpower]
  refine nearest_magnitude hbits hzero hm ?_
  rw [← h, Nat.cast_mul, mul_div_assoc, hfraction]
  rfl

end Value

section Shortest

variable {bits : ℕ}

theorem value_exact (bits : ℕ) :
    (exact bits).value = significand bits * 2 ^ Binary64.exponent bits := by
  unfold exact
  dsimp only
  by_cases hexponent : 0 ≤ Binary64.exponent bits
  · obtain ⟨k, hk⟩ := Int.eq_ofNat_of_zero_le hexponent
    rw [if_pos hexponent, hk]
    simp [value]
  · obtain ⟨k, hk⟩ : ∃ k : ℕ, Binary64.exponent bits = -k :=
      ⟨(-Binary64.exponent bits).toNat, by omega⟩
    rw [if_neg hexponent, hk]
    -- five to a power over ten to it
    have hpowers : (5 : ℚ) ^ k * (10 ^ k)⁻¹ = (2 ^ k)⁻¹ := by
      rw [← div_eq_mul_inv, ← div_pow, ← inv_pow]
      norm_num
    simp [value, mul_assoc, hpowers]

theorem magnitude_exact (hbits : bits < infinity) (hzero : 0 < bits) :
    (exact bits).magnitude = bits :=
  magnitude_eq hbits hzero (value_exact bits)

theorem magnitude_of_onGrid? {exponent : ℤ} {d : Decimal} (h : onGrid? bits exponent = some d) :
    d.magnitude = bits := by
  unfold onGrid? at h
  dsimp only at h
  have hfound := List.find?_some h
  exact of_decide_eq_true hfound

/-- The shortest decimal of a finite magnitude is read as that magnitude. -/
theorem magnitude_shortestOf (hbits : bits < infinity) : (shortestOf bits).magnitude = bits := by
  unfold shortestOf
  split_ifs with hzero
  · rw [hzero]
    rfl
  · dsimp only
    cases hfound :
      (gridExponents (toFraction bits).1 (toFraction bits).2).findSome? (onGrid? bits) with
    | some d =>
      obtain ⟨exponent, -, hgrid⟩ := List.exists_of_findSome?_eq_some hfound
      exact magnitude_of_onGrid? hgrid
    | none => exact magnitude_exact hbits (Nat.pos_of_ne_zero hzero)

/-- A finite double is read back from its shortest decimal. -/
theorem toFloat_shortest {v : Float} (h : v.isFinite = true) : (shortest v).toFloat = v := by
  have hmagnitude : (shortest v).magnitude = Binary64.magnitude v :=
    magnitude_shortestOf (magnitude_lt_infinity h)
  unfold toFloat
  rw [hmagnitude]
  exact ofMagnitude_magnitude v

end Shortest

end DesignChart.Decimal
