import Mathlib
import DesignChart.Proofs.Scalar.Decoded

/-!
# Rounding a significand

An operation gives its exact result as a whole number of units with two bits that tell where in the
last unit the result lies: the round bit in which half of it, the sticky bit whether past the start
of that half. The significand is shifted to the unit it is to be rounded to, and the bits decide
which way. The outcome is the exact result rounded.
-/

namespace DesignChart.Double

open Float.Model (Format UnpackedFloat totalExponent)
open Float.Model.UnpackedFloat

/-- The part of a unit that the round bit stands for. -/
def half (bit : Bool) : ℚ := if bit then 1 / 2 else 0

theorem half_nonneg (bit : Bool) : 0 ≤ half bit := by
  cases bit <;> norm_num [half]

theorem half_le (bit : Bool) : half bit ≤ 1 / 2 := by
  cases bit <;> norm_num [half]

/-- The significand and its two bits tell all of `x` that rounding asks for. -/
structure Represents (em : ExtendedMantissa) (x : ℚ) : Prop where
  le : em.mantissa + half em.roundBit ≤ x
  lt : x < em.mantissa + half em.roundBit + 1 / 2
  sticky : em.stickyBit = true ↔ em.mantissa + half em.roundBit < x

namespace Represents

variable {em : ExtendedMantissa} {x : ℚ}

theorem exact (m : ℕ) : Represents (.ofMantissaAndAccuracy m .exact) m := by
  constructor <;> norm_num [ExtendedMantissa.ofMantissaAndAccuracy, half]

/-- The bits for a proper fraction beyond a whole number of units. -/
theorem fraction (m : ℕ) {n d : ℕ} (hd : n < d) :
    Represents (.ofMantissaAndAccuracy m (accuracyOfFraction n d)) (m + n / d) := by
  have hd' : (0 : ℚ) < d := Nat.cast_pos.mpr (Nat.zero_lt_of_lt hd)
  have hn : (0 : ℚ) ≤ n / d := div_nonneg n.cast_nonneg hd'.le
  have hlt : (n : ℚ) / d < 1 := (div_lt_one hd').mpr (Nat.cast_lt.mpr hd)
  unfold accuracyOfFraction
  by_cases hzero : n = 0
  · rw [if_pos hzero, hzero, Nat.cast_zero, zero_div, add_zero]
    exact exact m
  · have hpos : (0 : ℚ) < n / d := div_pos (Nat.cast_pos.mpr (Nat.pos_of_ne_zero hzero)) hd'
    rw [if_neg hzero]
    rcases lt_trichotomy (2 * n) d with hcmp | hcmp | hcmp
    · have hhalf : (n : ℚ) / d < 1 / 2 := by
        rw [div_lt_div_iff₀ hd' two_pos]
        exact_mod_cast (by omega : n * 2 < 1 * d)
      rw [compare_lt_iff_lt.mpr hcmp]
      constructor <;> norm_num [ExtendedMantissa.ofMantissaAndAccuracy, half] <;> linarith
    · have hhalf : (n : ℚ) / d = 1 / 2 := by
        rw [div_eq_div_iff hd'.ne' two_ne_zero]
        exact_mod_cast (by omega : n * 2 = 1 * d)
      rw [compare_eq_iff_eq.mpr hcmp, hhalf]
      constructor <;> norm_num [ExtendedMantissa.ofMantissaAndAccuracy, half]
    · have hhalf : 1 / 2 < (n : ℚ) / d := by
        rw [div_lt_div_iff₀ two_pos hd']
        exact_mod_cast (by omega : 1 * d < n * 2)
      rw [compare_gt_iff_gt.mpr hcmp]
      constructor <;> norm_num [ExtendedMantissa.ofMantissaAndAccuracy, half] <;> linarith

theorem floor_eq (h : Represents em x) : ⌊x⌋ = em.mantissa := by
  have hhalf := half_nonneg em.roundBit
  have hle := half_le em.roundBit
  rw [Int.floor_eq_iff, Int.cast_natCast]
  exact ⟨by linarith [h.le], by linarith [h.lt]⟩

theorem roundedMantissa_eq (h : Represents em x) : (em.roundedMantissa : ℤ) = nearestEven x := by
  have hfract : Int.fract x = x - em.mantissa := by
    rw [Int.fract, h.floor_eq, Int.cast_natCast]
  unfold nearestEven
  rw [hfract, h.floor_eq]
  obtain ⟨m, round, sticky⟩ := em
  obtain ⟨hle, hlt, hsticky⟩ := h
  cases round with
  | false =>
    simp only [half, Bool.false_eq_true, if_false, add_zero] at hle hlt
    rw [if_pos (by linarith)]
    cases sticky <;> rfl
  | true =>
    simp only [half, if_true] at hle hlt hsticky
    rw [if_neg (by linarith)]
    cases sticky with
    | false =>
      have hmid : ¬ (m : ℚ) + 1 / 2 < x := fun h => Bool.false_ne_true (hsticky.mpr h)
      rw [if_neg (by linarith)]
      rfl
    | true =>
      have hpast : (m : ℚ) + 1 / 2 < x := hsticky.mp rfl
      rw [if_pos (by linarith)]
      rfl

/-- Halving moves the last digit into the round bit, and what was there into the sticky bit. -/
theorem shiftRightOne (h : Represents em x) : Represents em.shiftRightOne (x / 2) := by
  obtain ⟨m, round, sticky⟩ := em
  obtain ⟨hle, hlt, hsticky⟩ := h
  have hshifted : ((m / 2 : ℕ) : ℚ) + half (m % 2 != 0) = m / 2 := by
    have hdigit : half (m % 2 != 0) = (m % 2 : ℕ) / 2 := by
      rcases Nat.mod_two_eq_zero_or_one m with hm | hm <;> norm_num [hm, half]
    have hsplit : 2 * ((m / 2 : ℕ) : ℚ) + (m % 2 : ℕ) = m := by
      exact_mod_cast Nat.div_add_mod m 2
    rw [hdigit]
    linarith
  have hnonneg := half_nonneg round
  have hhalf := half_le round
  constructor
  · show ((m / 2 : ℕ) : ℚ) + half (m % 2 != 0) ≤ x / 2
    rw [hshifted]
    linarith
  · show x / 2 < ((m / 2 : ℕ) : ℚ) + half (m % 2 != 0) + 1 / 2
    rw [hshifted]
    linarith
  · show (round || sticky) = true ↔ ((m / 2 : ℕ) : ℚ) + half (m % 2 != 0) < x / 2
    rw [hshifted, div_lt_div_iff_of_pos_right two_pos]
    cases round with
    | false =>
      rw [Bool.false_or, hsticky]
      exact iff_of_eq (congrArg (· < x) (add_zero (m : ℚ)))
    | true =>
      simp only [half, if_true] at hle
      exact iff_of_true rfl (by linarith)

theorem shiftRight (h : Represents em x) (n : ℕ) : Represents (em >>> n) (x / 2 ^ n) := by
  induction n with
  | zero =>
    rw [pow_zero, div_one]
    exact h
  | succ n ih =>
    have hstep := ih.shiftRightOne
    rw [div_div, ← pow_succ] at hstep
    exact hstep

end Represents

section Exponent

variable {m : ℕ} {e : ℤ} {x : ℚ}

theorem log_mul_zpow (hx : 0 < x) (e : ℤ) : Int.log 2 (x * 2 ^ e) = Int.log 2 x + e := by
  refine eq_of_forall_le_iff fun c => ?_
  have hshift : (2 : ℚ) ^ c ≤ x * 2 ^ e ↔ 2 ^ (c - e) ≤ x := by
    rw [zpow_sub₀ two_ne_zero, div_le_iff₀ (two_zpow_pos e)]
  rw [← Int.zpow_le_iff_le_log one_lt_two (mul_pos hx (two_zpow_pos e)), Nat.cast_ofNat, hshift,
    ← sub_le_iff_le_add]
  exact Int.zpow_le_iff_le_log one_lt_two hx

theorem log_eq_log2 (hfloor : ⌊x⌋ = m) (hm : m ≠ 0) : Int.log 2 x = m.log2 := by
  have hone : 1 ≤ x := by
    have hle := Int.floor_le x
    rw [hfloor, Int.cast_natCast] at hle
    exact (Nat.one_le_cast.mpr (Nat.pos_of_ne_zero hm)).trans hle
  have hnat : ⌊x⌋₊ = m := by
    rw [← Int.floor_toNat, hfloor, Int.toNat_natCast]
  rw [Int.log_of_one_le_right 2 hone, hnat, Nat.log2_eq_log_two]

theorem totalExponent_eq (hm : 0 < m) (e : ℤ) :
    totalExponent m e = Int.log 2 ((m : ℚ) * 2 ^ e) + 1 := by
  rw [log_mul_zpow (Nat.cast_pos.mpr hm), log_eq_log2 (Int.floor_natCast m) hm.ne']
  show (m.log2 : ℤ) + 1 + e = m.log2 + e + 1
  ring

/-- A unit no coarser than that of the rounding leaves whole units, unless it is a least one. -/
theorem ne_zero_or_le (hfloor : ⌊x⌋ = m) (hx : 0 < x) (he : e ≤ unitExponent (x * 2 ^ e)) :
    m ≠ 0 ∨ e ≤ -1074 := by
  unfold unitExponent at he
  rw [abs_of_pos (mul_pos hx (two_zpow_pos e)), log_mul_zpow hx] at he
  rcases le_or_gt e (-1074) with hle | hgt
  · exact Or.inr hle
  · have hone : (1 : ℚ) ≤ x := by
      rw [← zpow_zero (2 : ℚ)]
      exact (Int.zpow_le_iff_le_log one_lt_two hx).mpr (by omega)
    have hfloor' : 1 ≤ ⌊x⌋ := Int.le_floor.mpr (by exact_mod_cast hone)
    exact Or.inl (by omega)

/-- The exponent that is shifted to is read off the whole units, unless there are none. -/
theorem targetExponent_eq (hfloor : ⌊x⌋ = m) (hx : 0 < x) (h : m ≠ 0 ∨ e ≤ -1074) :
    Format.binary64.targetExponent (totalExponent m e) = unitExponent (x * 2 ^ e) := by
  show max ((m.log2 : ℤ) + 1 + e - 53) (-1074) = unitExponent (x * 2 ^ e)
  unfold unitExponent
  rw [abs_of_pos (mul_pos hx (two_zpow_pos e)), log_mul_zpow hx]
  by_cases hm : m = 0
  · have hlow : Int.log 2 x < 0 := by
      have hlt := Int.lt_floor_add_one x
      rw [hfloor, hm, Nat.cast_zero, Int.cast_zero, zero_add] at hlt
      rw [← Int.lt_zpow_iff_log_lt one_lt_two hx, zpow_zero]
      exact hlt
    have hlog : m.log2 = 0 := by rw [hm]; rfl
    omega
  · have hlog := log_eq_log2 hfloor hm
    omega

theorem shiftToTargetExponent_eq (acc : Accuracy) {k : ℕ}
    (hk : (Format.binary64.targetExponent (totalExponent m e) - e).toNat = k) :
    shiftToTargetExponent .binary64 m e acc =
      (ExtendedMantissa.ofMantissaAndAccuracy m acc >>> k, e + k) := by
  subst hk
  rfl

/-- The first shift leaves the exact result in units of its rounding. -/
theorem shiftToTargetExponent_represents {acc : Accuracy}
    (h : Represents (.ofMantissaAndAccuracy m acc) x) (hx : 0 < x)
    (he : e ≤ unitExponent (x * 2 ^ e)) :
    ∃ em, shiftToTargetExponent .binary64 m e acc = (em, unitExponent (x * 2 ^ e)) ∧
      Represents em (x * 2 ^ e / 2 ^ unitExponent (x * 2 ^ e)) := by
  have hmantissa : (ExtendedMantissa.ofMantissaAndAccuracy m acc).mantissa = m := by
    rcases acc with _ | (_ | _ | _) <;> rfl
  have hfloor : ⌊x⌋ = m := hmantissa ▸ h.floor_eq
  have htarget := targetExponent_eq hfloor hx (ne_zero_or_le hfloor hx he)
  obtain ⟨k, hk⟩ : ∃ k : ℕ, unitExponent (x * 2 ^ e) = e + k :=
    ⟨(unitExponent (x * 2 ^ e) - e).toNat, by omega⟩
  have hshift := shiftToTargetExponent_eq (m := m) (e := e) acc (k := k) (by omega)
  have hunits : x / 2 ^ k = x * 2 ^ e / 2 ^ unitExponent (x * 2 ^ e) := by
    rw [hk, zpow_add₀ two_ne_zero, zpow_natCast, mul_comm x,
      mul_div_mul_left _ _ (two_zpow_pos e).ne']
  refine ⟨_, hshift.trans (congrArg _ hk.symm), ?_⟩
  rw [← hunits]
  exact h.shiftRight k

/-- A significand that has gained a digit by rounding gives it up again, with no loss. -/
theorem shiftToTargetExponent_exact (hm : m ≤ 2 ^ 53) (he : -1074 ≤ e)
    (hnormal : 2 ^ 52 ≤ m ∨ e = -1074) :
    ∃ em f, shiftToTargetExponent .binary64 m e .exact = (em, f) ∧ Canonical em.mantissa f ∧
      (em.mantissa : ℚ) * 2 ^ f = m * 2 ^ e := by
  have htarget : Format.binary64.targetExponent (totalExponent m e) =
      max ((m.log2 : ℤ) + 1 + e - 53) (-1074) := rfl
  rcases hm.lt_or_eq with hlt | hcarry
  · have hlog : m.log2 < 53 := by
      by_cases hzero : m = 0
      · rw [hzero]
        decide
      · exact (Nat.log2_lt hzero).mpr hlt
    have hshift := shiftToTargetExponent_eq (m := m) (e := e) .exact (k := 0) (by omega)
    rw [Nat.cast_zero, add_zero] at hshift
    exact ⟨_, _, hshift, ⟨hlt, he, hnormal⟩, rfl⟩
  · have hlog : m.log2 = 53 := by rw [hcarry, Nat.log2_two_pow]
    have hshift := shiftToTargetExponent_eq (m := m) (e := e) .exact (k := 1) (by omega)
    have hhalf : m / 2 = 2 ^ 52 := by omega
    refine ⟨_, _, hshift, ⟨?_, by omega, ?_⟩, ?_⟩
    · show m / 2 < 2 ^ 53
      omega
    · show 2 ^ 52 ≤ m / 2 ∨ _
      omega
    · show ((m / 2 : ℕ) : ℚ) * 2 ^ (e + (1 : ℕ)) = m * 2 ^ e
      rw [hhalf, hcarry, Nat.cast_one, zpow_add_one₀ two_ne_zero]
      push_cast
      ring

end Exponent

theorem roundWithAccuracy_eq (spec : Format) (s : Sign) (m : ℕ) (e : ℤ) (acc : Accuracy) :
    roundWithAccuracy spec s m e acc =
      let first := shiftToTargetExponent spec m e acc
      let last := shiftToTargetExponent spec first.1.roundedMantissa first.2 .exact
      if h : last.1.mantissa = 0 then .zero s
      else .finite s last.1.mantissa last.2 (Nat.pos_of_ne_zero h) := rfl

/-- What represents a number is rounded to the rounding of the number. -/
theorem rounds_roundWithAccuracy (s : Sign) {m : ℕ} {e : ℤ} {acc : Accuracy} {x : ℚ}
    (h : Represents (.ofMantissaAndAccuracy m acc) x) (hx : 0 < x)
    (he : e ≤ unitExponent (x * 2 ^ e)) :
    Rounds (roundWithAccuracy .binary64 s m e acc) (signed s (x * 2 ^ e)) := by
  have hpos : 0 < x * 2 ^ e := mul_pos hx (two_zpow_pos e)
  obtain ⟨first, hfirst, hrepresents⟩ := shiftToTargetExponent_represents h hx he
  have hnearest := hrepresents.roundedMantissa_eq
  have hrounded : rounded (x * 2 ^ e) =
      first.roundedMantissa * 2 ^ unitExponent (x * 2 ^ e) := by
    unfold rounded
    rw [← hnearest, Int.cast_natCast]
  have hle : first.roundedMantissa ≤ 2 ^ 53 := by
    have hbound := nearestEven_div_unit_le hpos
    rw [← hnearest] at hbound
    exact_mod_cast hbound
  have hleast : -1074 ≤ unitExponent (x * 2 ^ e) := le_max_right _ _
  have hnormal : 2 ^ 52 ≤ first.roundedMantissa ∨ unitExponent (x * 2 ^ e) = -1074 := by
    rcases hleast.lt_or_eq with hlt | heq
    · have hbound := le_nearestEven_div_unit hpos hlt
      rw [← hnearest] at hbound
      exact Or.inl (by exact_mod_cast hbound)
    · exact Or.inr heq.symm
  obtain ⟨last, f, hlast, hcanonical, hvalue⟩ := shiftToTargetExponent_exact hle hleast hnormal
  have hresult : rounded (signed s (x * 2 ^ e)) = signed s (last.mantissa * 2 ^ f) := by
    rw [rounded_signed, hrounded, hvalue]
  rw [roundWithAccuracy_eq]
  simp only [hfirst, hlast]
  by_cases hzero : last.mantissa = 0
  · rw [hzero, Nat.cast_zero, zero_mul, signed_zero] at hresult
    rw [dif_pos hzero]
    exact ⟨trivial, hresult.symm⟩
  · rw [dif_neg hzero]
    exact ⟨hcanonical, hresult.symm⟩

theorem decreaseExponent_exponent (m : ℕ) (e f : ℤ) : (decreaseExponent m e f).2 = min e f := by
  show e - ((e - f).toNat : ℤ) = min e f
  omega

theorem decreaseExponent_mantissa (m : ℕ) (e f : ℤ) :
    (decreaseExponent m e f).1 = m * 2 ^ (e - f).toNat := Nat.shiftLeft_eq m _

/-- Zeros may be put behind a significand at will. -/
theorem decreaseExponent_magnitude (m : ℕ) (e f : ℤ) :
    ((decreaseExponent m e f).1 : ℚ) * 2 ^ min e f = m * 2 ^ e := by
  have hexponent : e = (e - f).toNat + min e f := by omega
  rw [decreaseExponent_mantissa, Nat.cast_mul, Nat.cast_pow, Nat.cast_ofNat]
  nth_rewrite 3 [hexponent]
  rw [zpow_add₀ two_ne_zero, zpow_natCast, mul_assoc]

theorem rounds_round (s : Sign) {m : ℕ} (hm : 0 < m) (e : ℤ) :
    Rounds (UnpackedFloat.round .binary64 s m e) (signed s (m * 2 ^ e)) := by
  have hpos : (0 : ℚ) < m := Nat.cast_pos.mpr hm
  have htarget := targetExponent_eq (e := e) (Int.floor_natCast m) hpos (Or.inl hm.ne')
  have hround : UnpackedFloat.round .binary64 s m e =
      roundWithAccuracy .binary64 s (decreaseExponent m e (unitExponent (m * 2 ^ e))).1
        (min e (unitExponent (m * 2 ^ e))) .exact := by
    rw [← decreaseExponent_exponent m, ← htarget]
    rfl
  have hmagnitude := decreaseExponent_magnitude m e (unitExponent (m * 2 ^ e))
  have hdigits : 0 < (decreaseExponent m e (unitExponent (m * 2 ^ e))).1 := by
    rw [decreaseExponent_mantissa]
    exact Nat.mul_pos hm (Nat.two_pow_pos _)
  have hspec := rounds_roundWithAccuracy s (Represents.exact _) (Nat.cast_pos.mpr hdigits)
    ((min_le_right e _).trans_eq (congrArg unitExponent hmagnitude.symm))
  rw [hmagnitude, ← hround] at hspec
  exact hspec

theorem rounds_normalize (m e : ℤ) (s : Sign) :
    Rounds (UnpackedFloat.normalize .binary64 m e s) (m * 2 ^ e) := by
  unfold UnpackedFloat.normalize
  rcases lt_trichotomy m 0 with hneg | rfl | hpos
  · have hround := rounds_round .negative (m := (-m).toNat) (by omega) e
    have hm : (((-m).toNat : ℕ) : ℚ) = -m := by
      rw [← Int.cast_natCast, Int.toNat_of_nonneg (by omega), Int.cast_neg]
    rw [hm, signed, neg_mul, neg_neg] at hround
    rw [compare_lt_iff_lt.mpr hneg]
    exact hround
  · rw [compare_eq_iff_eq.mpr rfl, Int.cast_zero, zero_mul]
    exact Rounds.zero s
  · have hround := rounds_round .positive (m := m.toNat) (by omega) e
    have hm : ((m.toNat : ℕ) : ℚ) = m := by
      rw [← Int.cast_natCast, Int.toNat_of_nonneg hpos.le]
    rw [hm, signed] at hround
    rw [compare_gt_iff_gt.mpr hpos]
    exact hround

end DesignChart.Double
