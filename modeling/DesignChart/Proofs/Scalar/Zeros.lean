import Mathlib
import DesignChart.Proofs.Scalar.Double

/-!
# Doubles that are equal as numbers

Two doubles may be equal as numbers and yet differ in a sign of zero. Comparison does not see that
sign, and neither does arithmetic up to the same difference in its results, except where a zero
divides. So a computation on numbers that are the same gives numbers that are the same.
-/

namespace DesignChart.Double

open Float.Model (UnpackedFloat Format)
open Float.Model.UnpackedFloat (Sign)

/-- Equal as numbers, where NaN counts as equal to NaN. -/
def Same (a b : Float) : Prop := (a == b) = true ∨ a.isNaN = true ∧ b.isNaN = true

/-- Decoded numbers that differ in the sign of zero at most. -/
def Alike (a b : UnpackedFloat) : Prop := a = b ∨ (∃ s, a = .zero s) ∧ ∃ s, b = .zero s

theorem unpack_pack_zero (s : Sign) : (Float.Model.pack (.zero s)).unpack = .zero s := by
  cases s <;> rfl

namespace Alike

variable {a b c d : UnpackedFloat} {spec : Format}

theorem refl (a : UnpackedFloat) : Alike a a := Or.inl rfl

theorem trans (hab : Alike a b) (hbc : Alike b c) : Alike a c := by
  rcases hab with rfl | ⟨ha, hb⟩
  · exact hbc
  · rcases hbc with rfl | ⟨-, hc⟩
    · exact Or.inr ⟨ha, hb⟩
    · exact Or.inr ⟨ha, hc⟩

theorem isNaN_eq (h : Alike a b) : a.isNaN = b.isNaN := by
  rcases h with rfl | ⟨⟨s, rfl⟩, t, rfl⟩
  · rfl
  · rfl

theorem rank_eq (h : Alike a b) : rank a = rank b := by
  rcases h with rfl | ⟨⟨s, rfl⟩, t, rfl⟩
  · rfl
  · rfl

/-- Numbers of one rank are alike. -/
theorem of_rank_eq (ha : a.isNaN = false) (hb : b.isNaN = false) (h : rank a = rank b) :
    Alike a b := by
  cases a with
  | notANumber => cases ha
  | infinity s =>
    cases b with
    | notANumber => cases hb
    | infinity t => cases s <;> cases t <;> simp [rank, Sign.apply] at h <;> exact refl _
    | zero t => cases s <;> simp [rank, Sign.apply] at h
    | finite t n f hn => cases s <;> cases t <;> simp [rank, Sign.apply] at h
  | zero s =>
    cases b with
    | notANumber => cases hb
    | infinity t => cases t <;> simp [rank, Sign.apply] at h
    | zero t => exact Or.inr ⟨⟨s, rfl⟩, t, rfl⟩
    | finite t n f hn => cases t <;> simp [rank, Sign.apply] at h
  | finite s m e hm =>
    cases b with
    | notANumber => cases hb
    | infinity t => cases s <;> cases t <;> simp [rank, Sign.apply] at h
    | zero t => cases s <;> simp [rank, Sign.apply] at h
    | finite t n f hn =>
      -- the sign is read off the first component, then exponent and significand off the others
      cases s <;> cases t <;> simp [rank, Sign.apply] at h
      · obtain ⟨rfl, rfl⟩ := h
        exact refl _
      · obtain ⟨rfl, rfl⟩ := h
        exact refl _

/-- Packing a number keeps it apart from all that is not alike. -/
theorem pack (h : Alike a b) : Alike (Float.Model.pack a).unpack (Float.Model.pack b).unpack := by
  rcases h with rfl | ⟨⟨s, rfl⟩, t, rfl⟩
  · exact refl _
  · exact Or.inr ⟨⟨s, unpack_pack_zero s⟩, t, unpack_pack_zero t⟩

/-- An operation to which the sign of a zero makes no difference, on either side. -/
theorem congr {op : UnpackedFloat → UnpackedFloat → UnpackedFloat}
    (hleft : ∀ s t u, Alike (op (.zero s) u) (op (.zero t) u))
    (hright : ∀ s t u, Alike (op u (.zero s)) (op u (.zero t))) (hab : Alike a b)
    (hcd : Alike c d) : Alike (op a c) (op b d) := by
  have hac : Alike (op a c) (op b c) := by
    rcases hab with rfl | ⟨⟨s, rfl⟩, t, rfl⟩
    · exact refl _
    · exact hleft s t c
  have hbd : Alike (op b c) (op b d) := by
    rcases hcd with rfl | ⟨⟨s, rfl⟩, t, rfl⟩
    · exact refl _
    · exact hright s t b
  exact hac.trans hbd

theorem add (hab : Alike a b) (hcd : Alike c d) : Alike (a.add spec c) (b.add spec d) := by
  refine congr (fun s t u => ?_) (fun s t u => ?_) hab hcd
  · cases u with
    | notANumber => exact refl _
    | infinity v => exact refl _
    | zero v => cases s <;> cases t <;> cases v <;> exact Or.inr ⟨⟨_, rfl⟩, _, rfl⟩
    | finite v m e hm => exact refl _
  · cases u with
    | notANumber => exact refl _
    | infinity v => exact refl _
    | zero v => cases s <;> cases t <;> cases v <;> exact Or.inr ⟨⟨_, rfl⟩, _, rfl⟩
    | finite v m e hm => exact refl _

theorem sub (hab : Alike a b) (hcd : Alike c d) : Alike (a.sub spec c) (b.sub spec d) := by
  refine congr (fun s t u => ?_) (fun s t u => ?_) hab hcd
  · cases u with
    | notANumber => exact refl _
    | infinity v => exact refl _
    | zero v => cases s <;> cases t <;> cases v <;> exact Or.inr ⟨⟨_, rfl⟩, _, rfl⟩
    | finite v m e hm => exact refl _
  · cases u with
    | notANumber => exact refl _
    | infinity v => exact refl _
    | zero v => cases s <;> cases t <;> cases v <;> exact Or.inr ⟨⟨_, rfl⟩, _, rfl⟩
    | finite v m e hm => exact refl _

theorem mul (hab : Alike a b) (hcd : Alike c d) : Alike (a.mul spec c) (b.mul spec d) := by
  refine congr (fun s t u => ?_) (fun s t u => ?_) hab hcd
  · cases u with
    | notANumber => exact refl _
    | infinity v => exact refl _
    | zero v => exact Or.inr ⟨⟨_, rfl⟩, _, rfl⟩
    | finite v m e hm => exact Or.inr ⟨⟨_, rfl⟩, _, rfl⟩
  · cases u with
    | notANumber => exact refl _
    | infinity v => exact refl _
    | zero v => exact Or.inr ⟨⟨_, rfl⟩, _, rfl⟩
    | finite v m e hm => exact Or.inr ⟨⟨_, rfl⟩, _, rfl⟩

/-- The sign of a zero shows in what it divides, so only the dividend may vary. -/
theorem div (h : Alike a b) (c : UnpackedFloat) : Alike (a.div spec c) (b.div spec c) := by
  rcases h with rfl | ⟨⟨s, rfl⟩, t, rfl⟩
  · exact refl _
  · cases c with
    | notANumber => exact refl _
    | infinity u => exact Or.inr ⟨⟨_, rfl⟩, _, rfl⟩
    | zero u => exact refl _
    | finite u m e hm => exact Or.inr ⟨⟨_, rfl⟩, _, rfl⟩

end Alike

theorem beq_iff {a b : Float} :
    (a == b) = true ↔ a.isNaN = false ∧ b.isNaN = false ∧ rank (decoded a) = rank (decoded b) := by
  have hdef : (a == b) = ((decoded a).compare (decoded b) == some .eq) := rfl
  rw [hdef, ← isNaN_decoded a, ← isNaN_decoded b, ← and_assoc, beq_iff_eq]
  by_cases h : (decoded a).isNaN = false ∧ (decoded b).isNaN = false
  · rw [compare_eq_compare_rank h.1 h.2, Option.some_inj, compare_eq_iff_eq]
    exact ⟨fun heq => ⟨h, heq⟩, fun heq => heq.2⟩
  · rw [compare_eq_none h]
    exact ⟨fun heq => absurd heq.symm (Option.some_ne_none _), fun heq => absurd heq.1 h⟩

/-- Doubles are the same if their decoded forms are alike. -/
theorem same_iff {a b : Float} : Same a b ↔ Alike (decoded a) (decoded b) := by
  unfold Same
  rw [beq_iff]
  constructor
  · rintro (⟨ha, hb, hrank⟩ | ⟨ha, hb⟩)
    · exact Alike.of_rank_eq ha hb hrank
    · exact Or.inl ((decoded_of_isNaN ha).trans (decoded_of_isNaN hb).symm)
  · intro h
    have hnan : a.isNaN = b.isNaN := h.isNaN_eq
    cases hb : b.isNaN with
    | true => exact Or.inr ⟨hnan.trans hb, rfl⟩
    | false => exact Or.inl ⟨hnan.trans hb, rfl, h.rank_eq⟩

namespace Same

variable {a b c d : Float}

theorem refl (a : Float) : Same a a := same_iff.mpr (.refl _)

theorem of_le_of_le (hab : a ≤ b) (hba : b ≤ a) : Same a b := by
  obtain ⟨ha, hb, hle⟩ := le_iff.mp hab
  obtain ⟨-, -, hge⟩ := le_iff.mp hba
  exact Or.inl (beq_iff.mpr ⟨ha, hb, le_antisymm hle hge⟩)

theorem isNaN_eq (h : Same a b) : a.isNaN = b.isNaN := (same_iff.mp h).isNaN_eq

theorem le_iff_left (h : Same a b) (c : Float) : a ≤ c ↔ b ≤ c := by
  rw [le_iff, le_iff, h.isNaN_eq, (same_iff.mp h).rank_eq]

theorem le_iff_right (h : Same a b) (c : Float) : c ≤ a ↔ c ≤ b := by
  rw [le_iff, le_iff, h.isNaN_eq, (same_iff.mp h).rank_eq]

theorem add (hab : Same a b) (hcd : Same c d) : Same (a + c) (b + d) :=
  same_iff.mpr ((same_iff.mp hab).add (same_iff.mp hcd)).pack

theorem sub (hab : Same a b) (hcd : Same c d) : Same (a - c) (b - d) :=
  same_iff.mpr ((same_iff.mp hab).sub (same_iff.mp hcd)).pack

theorem mul (hab : Same a b) (hcd : Same c d) : Same (a * c) (b * d) :=
  same_iff.mpr ((same_iff.mp hab).mul (same_iff.mp hcd)).pack

theorem div (hab : Same a b) (c : Float) : Same (a / c) (b / c) :=
  same_iff.mpr ((same_iff.mp hab).div (decoded c)).pack

theorem blend {t t' : Float} (hab : Same a b) (hcd : Same c d) (ht : Same t t') :
    Same (blend a c t) (blend b d t') :=
  ((((refl 1).sub ht).mul hab)).add (ht.mul hcd)

end Same

end DesignChart.Double
