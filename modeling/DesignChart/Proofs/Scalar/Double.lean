import Mathlib
import DesignChart.Proofs.Scalar.Order

/-!
# The order of doubles

Doubles are compared as decoded numbers. A decoded number has a rank, a triple of integers in
lexicographic order, and comparison of numbers other than NaN is comparison of ranks: the negative
ones by falling exponent and significand, the two zeros in one place, then the positive ones. The
laws of comparison are therefore those of a linear order, up to the sign of zero.
-/

namespace DesignChart.Double

open Float.Model (UnpackedFloat)
open Float.Model.UnpackedFloat (Sign)

/-- The place of a decoded number in the order. The place of NaN is of no account. -/
def rank : UnpackedFloat → Int ×ₗ Int ×ₗ Int
  | .notANumber => toLex (0, toLex (0, 0))
  | .zero _ => toLex (0, toLex (0, 0))
  | .infinity s => toLex (s.apply 2, toLex (0, 0))
  | .finite s m e _ => toLex (s.apply 1, toLex (s.apply e, s.apply m))

theorem compare_toLex {α β : Type} [Ord α] [Ord β] (a c : α) (b d : β) :
    compare (toLex (a, b)) (toLex (c, d)) = (compare a c).then (compare b d) := rfl

theorem compare_neg (a b : Int) : compare (-a) (-b) = (compare a b).swap := by
  rw [compare_iff, Ordering.compares_swap]
  rcases lt_trichotomy a b with h | rfl | h
  · rw [compare_lt_iff_lt.mpr h]
    exact neg_lt_neg h
  · rw [compare_eq_iff_eq.mpr rfl]
    rfl
  · rw [compare_gt_iff_gt.mpr h]
    exact neg_lt_neg h

theorem compare_natCast (m n : Nat) : compare (m : Int) (n : Int) = compare m n := by
  rcases lt_trichotomy m n with h | rfl | h
  · rw [compare_lt_iff_lt.mpr h, compare_lt_iff_lt.mpr (Int.ofNat_lt.mpr h)]
  · rw [compare_eq_iff_eq.mpr rfl, compare_eq_iff_eq.mpr rfl]
  · rw [compare_gt_iff_gt.mpr h, compare_gt_iff_gt.mpr (Int.ofNat_lt.mpr h)]

/-- Numbers other than NaN compare as their ranks do. -/
theorem compare_eq_compare_rank {a b : UnpackedFloat} (ha : a.isNaN = false)
    (hb : b.isNaN = false) : a.compare b = some (compare (rank a) (rank b)) := by
  cases a with
  | notANumber => cases ha
  | infinity s =>
    cases b with
    | notANumber => cases hb
    | infinity t => cases s <;> cases t <;> rfl
    | zero t => cases s <;> rfl
    | finite t n f hn => cases s <;> cases t <;> rfl
  | zero s =>
    cases b with
    | notANumber => cases hb
    | infinity t => cases t <;> rfl
    | zero t => rfl
    | finite t n f hn => cases t <;> rfl
  | finite s m e hm =>
    cases b with
    | notANumber => cases hb
    | infinity t => cases s <;> cases t <;> rfl
    | zero t => cases s <;> rfl
    | finite t n f hn =>
      -- numbers of one sign compare by exponent and significand, turned round below zero
      cases s <;> cases t
      · simp [UnpackedFloat.compare, rank, Sign.apply, compare_toLex, compare_neg,
          compare_natCast, Ordering.swap_then]
      · rfl
      · rfl
      · simp [UnpackedFloat.compare, rank, Sign.apply, compare_toLex, compare_natCast]

theorem compare_eq_none {a b : UnpackedFloat} (h : ¬ (a.isNaN = false ∧ b.isNaN = false)) :
    a.compare b = none := by
  cases a with
  | notANumber => rfl
  | infinity s => cases b <;> simp_all [UnpackedFloat.isNaN, UnpackedFloat.compare]
  | zero s => cases b <;> simp_all [UnpackedFloat.isNaN, UnpackedFloat.compare]
  | finite s m e hm => cases b <;> simp_all [UnpackedFloat.isNaN, UnpackedFloat.compare]

/-- The decoded form of a double. -/
def decoded (v : Float) : UnpackedFloat := v.toModel.unpack

theorem isNaN_decoded (v : Float) : (decoded v).isNaN = v.isNaN := rfl

theorem le_iff {a b : Float} :
    a ≤ b ↔ a.isNaN = false ∧ b.isNaN = false ∧ rank (decoded a) ≤ rank (decoded b) := by
  have hdef : a ≤ b ↔ ((decoded a).compare (decoded b)).any (·.isLE) = true := decide_eq_true_iff
  rw [hdef, ← isNaN_decoded a, ← isNaN_decoded b, ← and_assoc]
  by_cases h : (decoded a).isNaN = false ∧ (decoded b).isNaN = false
  · rw [compare_eq_compare_rank h.1 h.2, ← compare_le_iff_le, Option.any_some,
      Ordering.isLE_iff_ne_gt]
    exact ⟨fun hle => ⟨h, hle⟩, fun hle => hle.2⟩
  · rw [compare_eq_none h]
    exact ⟨fun hle => absurd hle Bool.false_ne_true, fun hle => absurd hle.1 h⟩

theorem lt_iff {a b : Float} :
    a < b ↔ a.isNaN = false ∧ b.isNaN = false ∧ rank (decoded a) < rank (decoded b) := by
  have hdef : a < b ↔ ((decoded a).compare (decoded b) == some .lt) = true := decide_eq_true_iff
  rw [hdef, ← isNaN_decoded a, ← isNaN_decoded b, ← and_assoc, beq_iff_eq]
  by_cases h : (decoded a).isNaN = false ∧ (decoded b).isNaN = false
  · rw [compare_eq_compare_rank h.1 h.2, ← compare_lt_iff_lt, Option.some_inj]
    exact ⟨fun hlt => ⟨h, hlt⟩, fun hlt => hlt.2⟩
  · rw [compare_eq_none h]
    exact ⟨fun hlt => absurd hlt.symm (Option.some_ne_none _), fun hlt => absurd hlt.1 h⟩

theorem isNaN_of_isFinite {v : Float} (h : v.isFinite = true) : v.isNaN = false := by
  change (decoded v).isFinite = true at h
  rw [← isNaN_decoded]
  cases hv : decoded v with
  | notANumber => simp [hv, UnpackedFloat.isFinite] at h
  | infinity s => rfl
  | zero s => rfl
  | finite s m e hm => rfl

instance : LawfulScalar Float where
  le_trans hab hbc := by
    obtain ⟨ha, -, hab⟩ := le_iff.mp hab
    obtain ⟨-, hc, hbc⟩ := le_iff.mp hbc
    exact le_iff.mpr ⟨ha, hc, hab.trans hbc⟩
  lt_iff_le_not_ge {a b} := by
    change a < b ↔ a ≤ b ∧ ¬ b ≤ a
    rw [lt_iff, le_iff, le_iff]
    constructor
    · rintro ⟨ha, hb, hlt⟩
      exact ⟨⟨ha, hb, hlt.le⟩, fun hge => hlt.not_ge hge.2.2⟩
    · rintro ⟨⟨ha, hb, hle⟩, hge⟩
      exact ⟨ha, hb, hle.lt_of_not_ge fun h => hge ⟨hb, ha, h⟩⟩
  le_total {a b} ha hb := by
    rcases le_total (rank (decoded a)) (rank (decoded b)) with h | h
    · exact Or.inl (le_iff.mpr ⟨ha, hb, h⟩)
    · exact Or.inr (le_iff.mpr ⟨hb, ha, h⟩)
  isNaN_of_le hab := by
    obtain ⟨ha, hb, -⟩ := le_iff.mp hab
    exact ⟨ha, hb⟩
  isNaN_of_isFinite h := isNaN_of_isFinite h

/-- Of all doubles only NaN is neither below one nor above zero. -/
theorem isNaN_iff {v : Float} : v.isNaN = true ↔ ¬ v < 1 ∧ ¬ 0 < v := by
  constructor
  · intro h
    refine ⟨fun hlt => ?_, fun hlt => ?_⟩
    · rw [(lt_iff.mp hlt).1] at h
      cases h
    · rw [(lt_iff.mp hlt).2.1] at h
      cases h
  · rintro ⟨hone, hzero⟩
    by_contra hnum
    rw [Bool.not_eq_true] at hnum
    have hge : (1 : Float) ≤ v := Scalar.le_of_not_lt hnum (by decide +kernel) hone
    have hle : v ≤ (0 : Float) := Scalar.le_of_not_lt (by decide +kernel) hnum hzero
    have habsurd : (1 : Float) ≤ 0 := LawfulScalar.le_trans hge hle
    revert habsurd
    decide +kernel

theorem decoded_of_isNaN {v : Float} (h : v.isNaN = true) : decoded v = .notANumber := by
  rw [← isNaN_decoded] at h
  cases hv : decoded v with
  | notANumber => rfl
  | infinity s => simp [hv, UnpackedFloat.isNaN] at h
  | zero s => simp [hv, UnpackedFloat.isNaN] at h
  | finite s m e hm => simp [hv, UnpackedFloat.isNaN] at h

theorem isNaN_mul {a : Float} (h : a.isNaN = true) (b : Float) : (a * b).isNaN = true := by
  have hmul : UnpackedFloat.notANumber.mul .binary64 (decoded b) = .notANumber := by
    cases decoded b <;> rfl
  change (Float.Model.pack ((decoded a).mul _ (decoded b))).unpack.isNaN = true
  rw [decoded_of_isNaN h, hmul]
  decide +kernel

theorem add_eq_nan (a : Float) {b : Float} (h : b.isNaN = true) : a + b = Float.nan := by
  have hadd : (decoded a).add .binary64 .notANumber = .notANumber := by
    cases decoded a <;> rfl
  change Float.ofModel (Float.Model.pack ((decoded a).add _ (decoded b))) = Float.nan
  rw [decoded_of_isNaN h, hadd]
  decide +kernel

/-- A fraction that is no number makes a mean that is none, whatever is weighed. -/
theorem blend_eq_nan (a b : Float) {t : Float} (h : t.isNaN = true) : blend a b t = Float.nan :=
  add_eq_nan _ (isNaN_mul h b)

end DesignChart.Double
