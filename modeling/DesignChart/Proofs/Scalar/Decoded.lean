import Mathlib
import DesignChart.Proofs.Scalar.Zeros
import DesignChart.Proofs.Scalar.Rounding

/-!
# The numbers that doubles stand for

A decoded double is a sign, a significand and an exponent. The significand has 53 digits, or fewer
at the least exponent, so each number is decoded in one way only, and the order of ranks is the
order of the numbers. A number below two to the power 1024 is stored whole, and from there on as an
infinity.
-/

namespace DesignChart.Double

open Float.Model (Format UnpackedFloat)
open Float.Model.UnpackedFloat

section Signed

/-- A magnitude under a sign. -/
def signed : Sign → ℚ → ℚ
  | .negative, x => -x
  | .positive, x => x

variable (s t : Sign) (x y : ℚ)

theorem intCast_apply (n : ℤ) : ((s.apply n : ℤ) : ℚ) = signed s n := by
  cases s with
  | negative => exact Int.cast_neg n
  | positive => rfl

theorem abs_signed : |signed s x| = |x| := by
  cases s with
  | negative => exact abs_neg x
  | positive => rfl

theorem rounded_signed : rounded (signed s x) = signed s (rounded x) := by
  cases s with
  | negative => exact rounded_neg x
  | positive => rfl

theorem signed_zero : signed s 0 = 0 := by
  cases s with
  | negative => exact neg_zero
  | positive => rfl

theorem signed_mul_right : signed s (x * y) = signed s x * y := by
  cases s with
  | negative => exact neg_mul_eq_neg_mul x y
  | positive => rfl

theorem signed_mul_signed : signed s x * signed t y = signed (s * t) (x * y) := by
  cases s <;> cases t
  · exact neg_mul_neg x y
  · exact neg_mul x y
  · exact mul_neg x y
  · rfl

theorem signed_div_signed : signed s x / signed t y = signed (s / t) (x / y) := by
  cases s <;> cases t
  · exact neg_div_neg_eq x y
  · exact neg_div y x
  · exact div_neg x
  · rfl

end Signed

/-- The number that is decoded. No account is taken of the infinities and NaN. -/
def value : UnpackedFloat → ℚ
  | .finite s m e _ => signed s (m * 2 ^ e)
  | _ => 0

/-- A significand of at most 53 digits, all of them in use above the least exponent. -/
structure Canonical (m : ℕ) (e : ℤ) : Prop where
  lt : m < 2 ^ 53
  le : -1074 ≤ e
  normal : 2 ^ 52 ≤ m ∨ e = -1074

/-- Zero, or a canonical number, of whatever size. -/
def Proper : UnpackedFloat → Prop
  | .zero _ => True
  | .finite _ m e _ => Canonical m e
  | _ => False

/-- `u` is the rounding of `x`, whether or not it can be stored. -/
structure Rounds (u : UnpackedFloat) (x : ℚ) : Prop where
  proper : Proper u
  value_eq : value u = rounded x

theorem Proper.zero_or_finite {u : UnpackedFloat} (h : Proper u) :
    (∃ s, u = .zero s) ∨ ∃ s m e hm, u = .finite s m e hm ∧ Canonical m e := by
  cases u with
  | notANumber => exact h.elim
  | infinity s => exact h.elim
  | zero s => exact Or.inl ⟨s, rfl⟩
  | finite s m e hm => exact Or.inr ⟨s, m, e, hm, rfl, h⟩

theorem Proper.isNaN {u : UnpackedFloat} (h : Proper u) : u.isNaN = false := by
  rcases h.zero_or_finite with ⟨s, rfl⟩ | ⟨s, m, e, hm, rfl, -⟩
  · rfl
  · rfl

theorem Proper.isFinite {u : UnpackedFloat} (h : Proper u) : u.isFinite = true := by
  rcases h.zero_or_finite with ⟨s, rfl⟩ | ⟨s, m, e, hm, rfl, -⟩
  · rfl
  · rfl

section Value

variable {m n : ℕ} {e f : ℤ} {a b u : UnpackedFloat}

theorem magnitude_pos (hm : 0 < m) : (0 : ℚ) < m * 2 ^ e :=
  mul_pos (Nat.cast_pos.mpr hm) (two_zpow_pos e)

theorem Canonical.magnitude_lt (h : Canonical m e) : (m : ℚ) * 2 ^ e < 2 ^ (53 + e) := by
  rw [zpow_add₀ two_ne_zero]
  refine mul_lt_mul_of_pos_right ?_ (two_zpow_pos e)
  exact_mod_cast h.lt

theorem Canonical.le_magnitude (h : Canonical m e) (he : -1074 < e) :
    (2 : ℚ) ^ (52 + e) ≤ m * 2 ^ e := by
  have hm : 2 ^ 52 ≤ m := h.normal.resolve_right he.ne'
  rw [zpow_add₀ two_ne_zero]
  refine mul_le_mul_of_nonneg_right ?_ (two_zpow_pos e).le
  exact_mod_cast hm

/-- The exponent decides first, then the significand. -/
theorem Canonical.magnitude_lt_magnitude (hm : Canonical m e) (hn : Canonical n f)
    (h : e < f ∨ e = f ∧ m < n) : (m : ℚ) * 2 ^ e < n * 2 ^ f := by
  rcases h with hlt | ⟨rfl, hlt⟩
  · calc (m : ℚ) * 2 ^ e < 2 ^ (53 + e) := hm.magnitude_lt
      _ ≤ 2 ^ (52 + f) := two_zpow_le (by omega)
      _ ≤ n * 2 ^ f := hn.le_magnitude (hm.le.trans_lt hlt)
  · exact mul_lt_mul_of_pos_right (Nat.cast_lt.mpr hlt) (two_zpow_pos e)

theorem value_lt_of_rank_lt (ha : Proper a) (hb : Proper b) (h : rank a < rank b) :
    value a < value b := by
  rcases ha.zero_or_finite with ⟨s, rfl⟩ | ⟨s, m, e, hm, rfl, ha⟩
  · rcases hb.zero_or_finite with ⟨t, rfl⟩ | ⟨t, n, f, hn, rfl, -⟩
    · exact absurd h (lt_irrefl _)
    · cases t with
      | negative => simp [rank, Sign.apply, Prod.Lex.toLex_lt_toLex] at h
      | positive => exact magnitude_pos hn
  · rcases hb.zero_or_finite with ⟨t, rfl⟩ | ⟨t, n, f, hn, rfl, hb⟩
    · cases s with
      | negative => exact neg_lt_zero.mpr (magnitude_pos hm)
      | positive => simp [rank, Sign.apply, Prod.Lex.toLex_lt_toLex] at h
    · cases s <;> cases t <;> simp [rank, Sign.apply, Prod.Lex.toLex_lt_toLex] at h
      · refine neg_lt_neg (hb.magnitude_lt_magnitude ha ?_)
        omega
      · exact (neg_lt_zero.mpr (magnitude_pos hm)).trans (magnitude_pos hn)
      · refine ha.magnitude_lt_magnitude hb ?_
        omega

theorem value_eq_of_rank_eq (ha : Proper a) (hb : Proper b) (h : rank a = rank b) :
    value a = value b := by
  rcases Alike.of_rank_eq ha.isNaN hb.isNaN h with rfl | ⟨⟨s, rfl⟩, t, rfl⟩
  · rfl
  · rfl

theorem value_le_value_iff (ha : Proper a) (hb : Proper b) :
    value a ≤ value b ↔ rank a ≤ rank b := by
  rcases lt_trichotomy (rank a) (rank b) with hlt | heq | hgt
  · exact iff_of_true (value_lt_of_rank_lt ha hb hlt).le hlt.le
  · exact iff_of_true (value_eq_of_rank_eq ha hb heq).le heq.le
  · exact iff_of_false (value_lt_of_rank_lt hb ha hgt).not_ge hgt.not_ge

/-- A number that has been rounded is its own rounding. -/
theorem Proper.rounded_value (h : Proper u) : rounded (value u) = value u := by
  rcases h.zero_or_finite with ⟨s, rfl⟩ | ⟨s, m, e, hm, rfl, hcanonical⟩
  · exact rounded_zero
  · have hdigits : |(m : ℤ)| < 2 ^ 53 := by
      rw [Nat.abs_cast]
      exact_mod_cast hcanonical.lt
    have hkept : rounded (m * 2 ^ e) = m * 2 ^ e := rounded_of_digits hdigits hcanonical.le
    exact (rounded_signed s _).trans (congrArg (signed s) hkept)

theorem Rounds.of_value (h : Proper u) : Rounds u (value u) := ⟨h, h.rounded_value.symm⟩

theorem Rounds.zero (s : Sign) : Rounds (.zero s) 0 := ⟨trivial, rounded_zero.symm⟩

end Value

section Stored

theorem unpackSign_packComponents (s : Sign) (e : BitVec 11) (m : BitVec 52) :
    Sign.ofBitVec (unpackSign (packComponents .binary64 s e m)) = s := by
  have hbit : unpackSign (packComponents .binary64 s e m) = s.toBitVec := by
    show (s.toBitVec ++ e ++ m).extractLsb' 63 1 = s.toBitVec
    rw [BitVec.extractLsb'_append_eq_of_le (by decide),
      BitVec.extractLsb'_append_eq_of_le (by decide)]
    cases s <;> rfl
  rw [hbit]
  cases s <;> rfl

theorem toNat_implicit (m : BitVec 52) : (1#1 ++ m).toNat = 2 ^ 52 + m.toNat := by
  rw [BitVec.toNat_append, ← Nat.shiftLeft_add_eq_or_of_lt m.isLt]
  rfl

theorem unpack_infinity (s : Sign) : unpack .binary64 (packedInfinity .binary64 s) = .infinity s := by
  cases s <;> rfl

theorem unpack_subnormal (s : Sign) {m : BitVec 52} (hm : 0 < m.toNat) :
    unpack .binary64 (packComponents .binary64 s 0 m) = .finite s m.toNat (-1074) hm := by
  have hne : m ≠ 0#52 := by
    rintro rfl
    exact absurd hm (by decide)
  unfold unpack
  simp only [unpackExponent_packComponents, unpackMantissa_packComponents,
    unpackSign_packComponents]
  rw [if_neg (by decide), if_pos (by decide), dif_neg hne]
  rfl

theorem unpack_normal (s : Sign) {e : BitVec 11} {m : BitVec 52} (hlow : 0 < e.toNat)
    (hhigh : e.toNat < 2047) :
    unpack .binary64 (packComponents .binary64 s e m) =
      .finite s (2 ^ 52 + m.toNat) (e.toNat - 1075) (by omega) := by
  have hzero : e ≠ 0#11 := by
    rintro rfl
    exact absurd hlow (by decide)
  have hones : e ≠ -1#11 := by
    rintro rfl
    exact absurd hhigh (by decide)
  unfold unpack
  simp only [unpackExponent_packComponents, unpackMantissa_packComponents,
    unpackSign_packComponents]
  rw [if_neg hones, if_neg hzero]
  simp only [toNat_implicit]
  rfl

/-- The first power of two that is too large for a double. -/
def limit : ℚ := 2 ^ (1024 : ℤ)

variable {m : ℕ} {e : ℤ} {u : UnpackedFloat}

theorem Canonical.magnitude_lt_limit_iff (h : Canonical m e) :
    (m : ℚ) * 2 ^ e < limit ↔ e ≤ 971 := by
  constructor
  · intro hlt
    by_contra hge
    refine absurd hlt (not_lt.mpr ?_)
    calc limit ≤ 2 ^ (52 + e) := two_zpow_le (by omega)
      _ ≤ m * 2 ^ e := h.le_magnitude (by omega)
  · intro hle
    calc (m : ℚ) * 2 ^ e < 2 ^ (53 + e) := h.magnitude_lt
      _ ≤ limit := two_zpow_le (by omega)

theorem Canonical.unpack_pack (h : Canonical m e) (s : Sign) (hm : 0 < m) (he : e ≤ 971) :
    unpack .binary64 (pack .binary64 (.finite s m e hm)) = .finite s m e hm := by
  have hle := h.le
  have hroom : ¬ 2 ^ 11 ≤ (e + 1023 + 52).toNat + 1 := by omega
  have hpack : pack .binary64 (.finite s m e hm) =
      if m.log2 + 1 = 53 then
        packComponents .binary64 s (BitVec.ofNat 11 (e + 1023 + 52).toNat) (BitVec.ofNat 52 m)
      else packComponents .binary64 s 0 (BitVec.ofNat 52 m) := if_neg hroom
  rw [hpack]
  by_cases hnormal : 2 ^ 52 ≤ m
  · -- the leading digit is left out and put back
    have hlog : m.log2 = 52 := (Nat.log2_eq_iff hm.ne').mpr ⟨hnormal, h.lt⟩
    have hexp : (BitVec.ofNat 11 (e + 1023 + 52).toNat).toNat = (e + 1075).toNat := by
      rw [BitVec.toNat_ofNat]
      omega
    have hsig : 2 ^ 52 + (BitVec.ofNat 52 m).toNat = m := by
      have hlt := h.lt
      rw [BitVec.toNat_ofNat]
      omega
    rw [hlog, if_pos rfl, unpack_normal s (by omega) (by omega)]
    simp only [hsig, hexp]
    congr 1
    omega
  · obtain rfl : e = -1074 := h.normal.resolve_left hnormal
    have hlog : m.log2 + 1 ≠ 53 := by
      have hlt : m.log2 < 52 := (Nat.log2_lt hm.ne').mpr (not_le.mp hnormal)
      omega
    have hsig : (BitVec.ofNat 52 m).toNat = m := by
      rw [BitVec.toNat_ofNat]
      omega
    rw [if_neg hlog, unpack_subnormal s (by omega)]
    simp only [hsig]

/-- A number too large to be stored becomes an infinity. -/
theorem unpack_pack_large (s : Sign) (hm : 0 < m) (he : 971 < e) :
    unpack .binary64 (pack .binary64 (.finite s m e hm)) = .infinity s := by
  have hroom : 2 ^ 11 ≤ (e + 1023 + 52).toNat + 1 := by omega
  have hpack : pack .binary64 (.finite s m e hm) = packedInfinity .binary64 s := if_pos hroom
  rw [hpack, unpack_infinity]

theorem canonical_of_unpack {b : BitVec 64} {s : Sign} {hm : 0 < m}
    (h : unpack .binary64 b = .finite s m e hm) : Canonical m e ∧ e ≤ 971 := by
  unfold unpack at h
  extract_lets digits stored exponent signBit sign at h
  have hdigits : digits.toNat < 2 ^ 52 := digits.isLt
  have hstored : stored.toNat < 2 ^ 11 := stored.isLt
  have hexponent : exponent = stored.toNat - 1075 := rfl
  split_ifs at h with hones hempty hzero hnone
  · injection h with _ hm' he'
    have hvanish : stored.toNat = 0 := congrArg BitVec.toNat hzero
    exact ⟨⟨by omega, by omega, Or.inr (by omega)⟩, by omega⟩
  · injection h with _ hm' he'
    have hpos : stored.toNat ≠ 0 := fun h0 => hzero (BitVec.eq_of_toNat_eq h0)
    have hfull : stored.toNat ≠ 2047 := fun h0 => hones (BitVec.eq_of_toNat_eq h0)
    rw [toNat_implicit] at hm'
    exact ⟨⟨by omega, by omega, Or.inl (by omega)⟩, by omega⟩

end Stored

/-- The number that a finite double stands for. -/
def number (v : Float) : ℚ := value (decoded v)

/-- `v` is what `x` is stored as: its rounding, or an infinity if that is too large. -/
structure Stores (v : Float) (x : ℚ) : Prop where
  isNaN : v.isNaN = false
  isFinite_iff : v.isFinite = true ↔ |rounded x| < limit
  number_eq : v.isFinite = true → number v = rounded x

section Number

variable {a b v : Float}

theorem exists_decoded (h : v.isFinite = true) :
    (∃ s, decoded v = .zero s) ∨
      ∃ s m e hm, decoded v = .finite s m e hm ∧ Canonical m e ∧ e ≤ 971 := by
  change (decoded v).isFinite = true at h
  cases hv : decoded v with
  | notANumber => simp [hv, UnpackedFloat.isFinite] at h
  | infinity s => simp [hv, UnpackedFloat.isFinite] at h
  | zero s => exact Or.inl ⟨s, rfl⟩
  | finite s m e hm => exact Or.inr ⟨s, m, e, hm, rfl, canonical_of_unpack hv⟩

theorem proper_decoded (h : v.isFinite = true) : Proper (decoded v) := by
  rcases exists_decoded h with ⟨s, hv⟩ | ⟨s, m, e, hm, hv, hcanonical, -⟩
  · rw [hv]
    exact trivial
  · rw [hv]
    exact hcanonical

theorem abs_number_lt (h : v.isFinite = true) : |number v| < limit := by
  unfold number
  rcases exists_decoded h with ⟨s, hv⟩ | ⟨s, m, e, hm, hv, hcanonical, he⟩
  · rw [hv]
    exact abs_zero.trans_lt (two_zpow_pos 1024)
  · rw [hv]
    exact (abs_signed s _).trans_lt ((abs_of_pos (magnitude_pos hm)).trans_lt
      (hcanonical.magnitude_lt_limit_iff.mpr he))

theorem number_le_number_iff (ha : a.isFinite = true) (hb : b.isFinite = true) :
    number a ≤ number b ↔ a ≤ b := by
  rw [le_iff]
  have hrank := value_le_value_iff (proper_decoded ha) (proper_decoded hb)
  exact hrank.trans ⟨fun h => ⟨isNaN_of_isFinite ha, isNaN_of_isFinite hb, h⟩, fun h => h.2.2⟩

/-- Doubles are whole numbers of the least unit. -/
theorem exists_number_eq (h : v.isFinite = true) : ∃ n : ℤ, number v = n * 2 ^ (-1074 : ℤ) := by
  unfold number
  rcases exists_decoded h with ⟨s, hv⟩ | ⟨s, m, e, hm, hv, hcanonical, -⟩
  · rw [hv]
    exact ⟨0, by rw [Int.cast_zero, zero_mul]; rfl⟩
  · rw [hv]
    have hle := hcanonical.le
    obtain ⟨k, rfl⟩ : ∃ k : ℕ, e = k + -1074 := ⟨(e + 1074).toNat, by omega⟩
    refine ⟨s.apply (m * 2 ^ k), ?_⟩
    rw [intCast_apply, ← signed_mul_right]
    show signed s (m * 2 ^ ((k : ℤ) + -1074)) = _
    rw [zpow_add₀ two_ne_zero, zpow_natCast, ← mul_assoc, Int.cast_mul, Int.cast_pow,
      Int.cast_natCast, Int.cast_ofNat]

theorem Stores.of_decoded {u : UnpackedFloat} {x : ℚ} (hv : decoded v = u) (hu : Rounds u x)
    (hlt : |rounded x| < limit) : Stores v x := by
  have hfinite : (decoded v).isFinite = true := by
    rw [hv]
    exact hu.proper.isFinite
  refine ⟨isNaN_of_isFinite hfinite, iff_of_true hfinite hlt, fun _ => ?_⟩
  unfold number
  rw [hv, hu.value_eq]

theorem Stores.of_infinity {s : Sign} {x : ℚ} (hv : decoded v = .infinity s)
    (hge : limit ≤ |rounded x|) : Stores v x := by
  have hinfinite : v.isFinite = false := by
    show (decoded v).isFinite = false
    rw [hv]
    rfl
  refine ⟨?_, iff_of_false ?_ hge.not_gt, fun h => ?_⟩
  · rw [← isNaN_decoded, hv]
    rfl
  · rw [hinfinite]
    exact Bool.false_ne_true
  · exact absurd (hinfinite.symm.trans h) Bool.false_ne_true

/-- Packing stores a number that has been rounded. -/
theorem Rounds.stores_pack {u : UnpackedFloat} {x : ℚ} (hu : Rounds u x) :
    Stores (Float.ofModel (Float.Model.pack u)) x := by
  rcases hu.proper.zero_or_finite with ⟨s, rfl⟩ | ⟨s, m, e, hm, rfl, hcanonical⟩
  · have hzero : |rounded x| < limit := by
      rw [← hu.value_eq]
      exact abs_zero.trans_lt (two_zpow_pos 1024)
    exact Stores.of_decoded (unpack_pack_zero s) hu hzero
  · have hlimit : |rounded x| < limit ↔ e ≤ 971 := by
      rw [← hu.value_eq, ← hcanonical.magnitude_lt_limit_iff]
      show |signed s (m * 2 ^ e)| < limit ↔ _
      rw [abs_signed, abs_of_pos (magnitude_pos hm)]
    rcases le_or_gt e 971 with hle | hgt
    · exact Stores.of_decoded (hcanonical.unpack_pack s hm hle) hu (hlimit.mpr hle)
    · exact Stores.of_infinity (unpack_pack_large s hm hgt)
        (not_lt.mp fun h => hgt.not_ge (hlimit.mp h))

end Number

end DesignChart.Double
