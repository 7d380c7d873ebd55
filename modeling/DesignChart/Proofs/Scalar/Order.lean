import DesignChart.Scalar

/-!
# The order of scalars

Comparison is all that the search in an axis and the range policies rely on. The laws below hold
for exact rationals and for doubles alike: what is not NaN is ordered, though not antisymmetrically
(the two zeros of doubles), and NaN compares with nothing. No law of arithmetic is assumed.
-/

namespace DesignChart

/-- Scalars whose comparison orders all of them but NaN. -/
class LawfulScalar (α : Type) [Scalar α] : Prop where
  le_trans : ∀ {a b c : α}, a ≤ b → b ≤ c → a ≤ c
  lt_iff_le_not_ge : ∀ {a b : α}, a < b ↔ a ≤ b ∧ ¬ b ≤ a
  le_total : ∀ {a b : α}, Scalar.isNaN a = false → Scalar.isNaN b = false → a ≤ b ∨ b ≤ a
  isNaN_of_le : ∀ {a b : α}, a ≤ b → Scalar.isNaN a = false ∧ Scalar.isNaN b = false
  isNaN_of_isFinite : ∀ {a : α}, Scalar.isFinite a = true → Scalar.isNaN a = false

namespace Scalar

variable {α : Type} [Scalar α] [LawfulScalar α] {a b c : α}

theorem le_of_lt (h : a < b) : a ≤ b := (LawfulScalar.lt_iff_le_not_ge.mp h).1

theorem not_le_of_lt (h : a < b) : ¬ b ≤ a := (LawfulScalar.lt_iff_le_not_ge.mp h).2

theorem not_lt_of_le (h : a ≤ b) : ¬ b < a := fun hlt => not_le_of_lt hlt h

theorem lt_asymm (h : a < b) : ¬ b < a := not_lt_of_le (le_of_lt h)

theorem le_refl (h : isNaN a = false) : a ≤ a := (LawfulScalar.le_total h h).elim id id

theorem lt_of_le_of_lt (hab : a ≤ b) (hbc : b < c) : a < c := by
  rw [LawfulScalar.lt_iff_le_not_ge]
  refine ⟨LawfulScalar.le_trans hab (le_of_lt hbc), fun hca => ?_⟩
  exact not_le_of_lt hbc (LawfulScalar.le_trans hca hab)

theorem lt_of_lt_of_le (hab : a < b) (hbc : b ≤ c) : a < c := by
  rw [LawfulScalar.lt_iff_le_not_ge]
  refine ⟨LawfulScalar.le_trans (le_of_lt hab) hbc, fun hca => ?_⟩
  exact not_le_of_lt hab (LawfulScalar.le_trans hbc hca)

theorem lt_trans (hab : a < b) (hbc : b < c) : a < c := lt_of_lt_of_le hab (le_of_lt hbc)

theorem lt_of_not_le (ha : isNaN a = false) (hb : isNaN b = false) (h : ¬ b ≤ a) : a < b := by
  rw [LawfulScalar.lt_iff_le_not_ge]
  exact ⟨(LawfulScalar.le_total ha hb).resolve_right h, h⟩

theorem le_of_not_lt (ha : isNaN a = false) (hb : isNaN b = false) (h : ¬ a < b) : b ≤ a := by
  rw [LawfulScalar.lt_iff_le_not_ge] at h
  by_cases hba : b ≤ a
  · exact hba
  · exact absurd ⟨(LawfulScalar.le_total ha hb).resolve_right hba, hba⟩ h

end Scalar

end DesignChart
