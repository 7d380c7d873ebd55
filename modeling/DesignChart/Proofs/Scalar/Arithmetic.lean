import Mathlib
import DesignChart.Proofs.Scalar.Significand

/-!
# Arithmetic of doubles

On finite doubles each operation stores the rounding of the exact result. Two different doubles are
at least the least unit apart, so their difference is not rounded to zero.
-/

namespace DesignChart.Double

open Float.Model (Format UnpackedFloat totalExponent)
open Float.Model.UnpackedFloat

section Unpacked

variable {a b : UnpackedFloat} {m n : ℕ} {e f : ℤ}

/-- A significand at a common exponent with another one. -/
theorem apply_decreaseExponent (s : Sign) (m : ℕ) {e f : ℤ} (h : f ≤ e) :
    ((s.apply (decreaseExponent m e f).1 : ℤ) : ℚ) * 2 ^ f = signed s (m * 2 ^ e) := by
  have hmagnitude := decreaseExponent_magnitude m e f
  rw [min_eq_right h] at hmagnitude
  rw [intCast_apply, ← signed_mul_right]
  exact congrArg (signed s) hmagnitude

theorem rounds_add (ha : Proper a) (hb : Proper b) :
    Rounds (a.add .binary64 b) (value a + value b) := by
  rcases ha.zero_or_finite with ⟨s, rfl⟩ | ⟨s, m, e, hm, rfl, -⟩
  · rcases hb.zero_or_finite with ⟨t, rfl⟩ | ⟨t, n, f, hn, rfl, -⟩
    · show Rounds _ (0 + 0)
      rw [zero_add]
      cases s <;> cases t <;> exact Rounds.zero _
    · show Rounds _ (0 + _)
      rw [zero_add]
      exact Rounds.of_value hb
  · rcases hb.zero_or_finite with ⟨t, rfl⟩ | ⟨t, n, f, hn, rfl, -⟩
    · show Rounds _ (_ + 0)
      rw [add_zero]
      exact Rounds.of_value ha
    · have hsum := rounds_normalize (s.apply (decreaseExponent m e (min e f)).1 +
        t.apply (decreaseExponent n f (min e f)).1) (min e f) .positive
      rw [Int.cast_add, add_mul, apply_decreaseExponent s m (min_le_left e f),
        apply_decreaseExponent t n (min_le_right e f)] at hsum
      exact hsum

theorem rounds_sub (ha : Proper a) (hb : Proper b) :
    Rounds (a.sub .binary64 b) (value a - value b) := by
  rcases ha.zero_or_finite with ⟨s, rfl⟩ | ⟨s, m, e, hm, rfl, -⟩
  · rcases hb.zero_or_finite with ⟨t, rfl⟩ | ⟨t, n, f, hn, rfl, hcanonical⟩
    · show Rounds _ (0 - 0)
      rw [sub_zero]
      cases s <;> cases t <;> exact Rounds.zero _
    · have hneg : value (.finite (-t) n f hn) = -value (.finite t n f hn) := by
        cases t with
        | negative => exact (neg_neg _).symm
        | positive => rfl
      show Rounds (.finite (-t) n f hn) (0 - value (.finite t n f hn))
      rw [zero_sub, ← hneg]
      exact Rounds.of_value hcanonical
  · rcases hb.zero_or_finite with ⟨t, rfl⟩ | ⟨t, n, f, hn, rfl, -⟩
    · show Rounds _ (_ - 0)
      rw [sub_zero]
      exact Rounds.of_value ha
    · have hdifference := rounds_normalize (s.apply (decreaseExponent m e (min e f)).1 -
        t.apply (decreaseExponent n f (min e f)).1) (min e f) .positive
      rw [Int.cast_sub, sub_mul, apply_decreaseExponent s m (min_le_left e f),
        apply_decreaseExponent t n (min_le_right e f)] at hdifference
      exact hdifference

/-- The product of two significands has digits enough, or lies below the least unit. -/
theorem Canonical.add_le_unitExponent (hm : Canonical m e) (hn : Canonical n f) (hm0 : 0 < m)
    (hn0 : 0 < n) : e + f ≤ unitExponent ((m * n : ℕ) * 2 ^ (e + f)) := by
  have hpos : 0 < m * n := Nat.mul_pos hm0 hn0
  have hmagnitude : (0 : ℚ) < (m * n : ℕ) * 2 ^ (e + f) := magnitude_pos hpos
  have hlog := totalExponent_eq hpos (e + f)
  unfold unitExponent
  rw [abs_of_pos hmagnitude]
  have hdigits : 52 ≤ (m * n).log2 ∨ e = -1074 ∧ f = -1074 := by
    rcases hm.normal with hm' | hm'
    · exact Or.inl ((Nat.le_log2 hpos.ne').mpr (hm'.trans (Nat.le_mul_of_pos_right m hn0)))
    · rcases hn.normal with hn' | hn'
      · exact Or.inl ((Nat.le_log2 hpos.ne').mpr (hn'.trans (Nat.le_mul_of_pos_left n hm0)))
      · exact Or.inr ⟨hm', hn'⟩
  unfold totalExponent at hlog
  omega

theorem rounds_mul (ha : Proper a) (hb : Proper b) :
    Rounds (a.mul .binary64 b) (value a * value b) := by
  rcases ha.zero_or_finite with ⟨s, rfl⟩ | ⟨s, m, e, hm, rfl, ha⟩
  · show Rounds _ (0 * _)
    rw [zero_mul]
    rcases hb.zero_or_finite with ⟨t, rfl⟩ | ⟨t, n, f, hn, rfl, -⟩
    · exact Rounds.zero _
    · exact Rounds.zero _
  · rcases hb.zero_or_finite with ⟨t, rfl⟩ | ⟨t, n, f, hn, rfl, hb⟩
    · show Rounds _ (_ * 0)
      rw [mul_zero]
      exact Rounds.zero _
    · have hmagnitude : ((m * n : ℕ) : ℚ) * 2 ^ (e + f) = m * 2 ^ e * (n * 2 ^ f) := by
        rw [Nat.cast_mul, zpow_add₀ two_ne_zero, mul_mul_mul_comm]
      have hproduct := rounds_roundWithAccuracy (s * t) (Represents.exact (m * n))
        (Nat.cast_pos.mpr (Nat.mul_pos hm hn)) (ha.add_le_unitExponent hb hm hn)
      rw [hmagnitude, ← signed_mul_signed] at hproduct
      exact hproduct

/-- The quotient of two logarithms is one too great at most. -/
theorem sub_one_le_log_div {x y : ℚ} (hx : 0 < x) (hy : 0 < y) :
    Int.log 2 x - Int.log 2 y - 1 ≤ Int.log 2 (x / y) := by
  have hlow : (2 : ℚ) ^ Int.log 2 x ≤ x := Int.zpow_log_le_self one_lt_two hx
  have hhigh : y < (2 : ℚ) ^ (Int.log 2 y + 1) := Int.lt_zpow_succ_log_self one_lt_two y
  rw [← Int.zpow_le_iff_le_log one_lt_two (div_pos hx hy), Nat.cast_ofNat, sub_sub,
    zpow_sub₀ two_ne_zero]
  exact div_le_div₀ hx.le hlow hy hhigh.le

/-- The exponent at which significands are divided gives the quotient digits enough. -/
theorem targetExponent_sub_le (hm : 0 < m) (hn : 0 < n) :
    Format.binary64.targetExponent (totalExponent m e - totalExponent n f) ≤
      unitExponent ((m : ℚ) * 2 ^ e / (n * 2 ^ f)) := by
  have hquotient : (0 : ℚ) < m * 2 ^ e / (n * 2 ^ f) :=
    div_pos (magnitude_pos hm) (magnitude_pos hn)
  have hlog := sub_one_le_log_div (magnitude_pos (e := e) hm) (magnitude_pos (e := f) hn)
  show max (totalExponent m e - totalExponent n f - 53) (-1074) ≤ _
  unfold unitExponent
  rw [totalExponent_eq hm, totalExponent_eq hn, abs_of_pos hquotient]
  omega

/-- Significands are divided with remainder, the dividend brought to an exponent that leaves digits
enough. -/
theorem divCore_spec (hm : 0 < m) (hn : 0 < n) :
    ∃ k g, divCore .binary64 m e n f = (k / n, g, accuracyOfFraction (k % n) n) ∧ 0 < k ∧
      (k : ℚ) / n * 2 ^ g = m * 2 ^ e / (n * 2 ^ f) ∧
        g ≤ unitExponent ((m : ℚ) * 2 ^ e / (n * 2 ^ f)) := by
  obtain ⟨g, hg⟩ : ∃ g, min (e - f)
      (Format.binary64.targetExponent (totalExponent m e - totalExponent n f)) = g := ⟨_, rfl⟩
  refine ⟨(decreaseExponent m (e - f) g).1, g, ?_, ?_, ?_, ?_⟩
  · rw [← hg]
    rfl
  · rw [decreaseExponent_mantissa]
    exact Nat.mul_pos hm (Nat.two_pow_pos _)
  · have hshifted := decreaseExponent_magnitude m (e - f) g
    rw [min_eq_right (hg ▸ min_le_left _ _), zpow_sub₀ two_ne_zero] at hshifted
    rw [div_mul_eq_mul_div, hshifted, mul_div_assoc', div_div, mul_comm (2 ^ f : ℚ)]
  · rw [← hg]
    exact (min_le_right _ _).trans (targetExponent_sub_le hm hn)

theorem rounds_div (ha : Proper a) (hb : Proper b) (hzero : value b ≠ 0) :
    Rounds (a.div .binary64 b) (value a / value b) := by
  rcases hb.zero_or_finite with ⟨t, rfl⟩ | ⟨t, n, f, hn, rfl, -⟩
  · exact absurd rfl hzero
  rcases ha.zero_or_finite with ⟨s, rfl⟩ | ⟨s, m, e, hm, rfl, -⟩
  · show Rounds _ (0 / _)
    rw [zero_div]
    exact Rounds.zero _
  · obtain ⟨k, g, hcore, hk, hmagnitude, hunit⟩ := divCore_spec (e := e) (f := f) hm hn
    have hdiv : (UnpackedFloat.finite s m e hm).div .binary64 (.finite t n f hn) =
        roundWithAccuracy .binary64 (s / t) (k / n) g (accuracyOfFraction (k % n) n) := by
      unfold UnpackedFloat.div
      simp only [hcore]
    have hn' : (0 : ℚ) < n := Nat.cast_pos.mpr hn
    have hwhole : ((k / n : ℕ) : ℚ) + (k % n : ℕ) / n = k / n := by
      rw [eq_div_iff hn'.ne', add_mul, div_mul_cancel₀ _ hn'.ne', mul_comm]
      exact_mod_cast Nat.div_add_mod k n
    have hrepresents := Represents.fraction (k / n) (Nat.mod_lt k hn)
    rw [hwhole] at hrepresents
    rw [← hmagnitude] at hunit
    have hquotient := rounds_roundWithAccuracy (s / t) hrepresents
      (div_pos (Nat.cast_pos.mpr hk) hn') hunit
    rw [hmagnitude, ← signed_div_signed, ← hdiv] at hquotient
    exact hquotient

end Unpacked

section Stored

variable {a b : Float}

theorem stores_add (ha : a.isFinite = true) (hb : b.isFinite = true) :
    Stores (a + b) (number a + number b) :=
  (rounds_add (proper_decoded ha) (proper_decoded hb)).stores_pack

theorem stores_sub (ha : a.isFinite = true) (hb : b.isFinite = true) :
    Stores (a - b) (number a - number b) :=
  (rounds_sub (proper_decoded ha) (proper_decoded hb)).stores_pack

theorem stores_mul (ha : a.isFinite = true) (hb : b.isFinite = true) :
    Stores (a * b) (number a * number b) :=
  (rounds_mul (proper_decoded ha) (proper_decoded hb)).stores_pack

theorem stores_div (ha : a.isFinite = true) (hb : b.isFinite = true) (hzero : number b ≠ 0) :
    Stores (a / b) (number a / number b) :=
  (rounds_div (proper_decoded ha) (proper_decoded hb) hzero).stores_pack

end Stored

end DesignChart.Double
