import Mathlib
import DesignChart.Interval
import DesignChart.Proofs.Scalar.Order

/-!
# Ranges, and numbers moved into them

A proper range has its ends in order, so that neither is NaN. Numbers other than NaN are moved into
it and stay there. Moving a number into a wider range first makes no difference, except that of two
ends which compare equal the other one may be reached.
-/

namespace DesignChart.Interval

variable {α : Type} [Scalar α]

/-- The ends are in order. -/
def Proper (range : Interval α) : Prop := range.lower ≤ range.upper

/-- The first range does not reach beyond the second. -/
structure Within (inner outer : Interval α) : Prop where
  lower_le : outer.lower ≤ inner.lower
  le_upper : inner.upper ≤ outer.upper

variable [LawfulScalar α] {range other inner outer : Interval α} {v : α}

theorem clamp_of_mem (h : v ∈ range) : range.clamp v = v := by
  unfold clamp
  rw [if_neg (Scalar.not_lt_of_le h.1), if_neg (Scalar.not_lt_of_le h.2)]

theorem isNaN_of_mem (h : v ∈ range) : Scalar.isNaN v = false := (LawfulScalar.isNaN_of_le h.1).2

theorem Proper.clamp_mem (h : range.Proper) (hv : Scalar.isNaN v = false) :
    range.clamp v ∈ range := by
  obtain ⟨hlower, hupper⟩ := LawfulScalar.isNaN_of_le h
  unfold clamp
  split
  next => exact ⟨Scalar.le_refl hlower, h⟩
  next hl =>
    split
    next => exact ⟨h, Scalar.le_refl hupper⟩
    next hu => exact ⟨Scalar.le_of_not_lt hv hlower hl, Scalar.le_of_not_lt hupper hv hu⟩

theorem Proper.clamp_clamp (h : range.Proper) (hv : Scalar.isNaN v = false) :
    range.clamp (range.clamp v) = range.clamp v :=
  clamp_of_mem (h.clamp_mem hv)

theorem Within.trans (h : inner.Within range) (h' : range.Within outer) : inner.Within outer :=
  ⟨LawfulScalar.le_trans h'.lower_le h.lower_le, LawfulScalar.le_trans h.le_upper h'.le_upper⟩

theorem Proper.within_self (h : range.Proper) : range.Within range := by
  obtain ⟨hlower, hupper⟩ := LawfulScalar.isNaN_of_le h
  exact ⟨Scalar.le_refl hlower, Scalar.le_refl hupper⟩

/-- A proper range is within its hull with another one, and that one is too. -/
theorem Proper.within_hull (h : range.Proper) (h' : other.Proper) :
    range.Within (range.hull other) ∧ other.Within (range.hull other) := by
  obtain ⟨hlower, hupper⟩ := LawfulScalar.isNaN_of_le h
  obtain ⟨hlower', hupper'⟩ := LawfulScalar.isNaN_of_le h'
  have hlow : (range.hull other).lower ≤ range.lower ∧ (range.hull other).lower ≤ other.lower := by
    unfold hull
    dsimp only
    split
    next hlt => exact ⟨Scalar.le_refl hlower, Scalar.le_of_lt hlt⟩
    next hlt => exact ⟨Scalar.le_of_not_lt hlower hlower' hlt, Scalar.le_refl hlower'⟩
  have hupp : range.upper ≤ (range.hull other).upper ∧ other.upper ≤ (range.hull other).upper := by
    unfold hull
    dsimp only
    split
    next hlt => exact ⟨Scalar.le_refl hupper, Scalar.le_of_lt hlt⟩
    next hlt => exact ⟨Scalar.le_of_not_lt hupper' hupper hlt, Scalar.le_refl hupper'⟩
  exact ⟨⟨hlow.1, hupp.1⟩, hlow.2, hupp.2⟩

theorem Within.proper (h : inner.Within outer) (hi : inner.Proper) : outer.Proper :=
  LawfulScalar.le_trans h.lower_le (LawfulScalar.le_trans hi h.le_upper)

/-- The hull of several ranges reaches over each of them. -/
theorem within_foldl_hull {ranges : List (Interval α)} (hr : ∀ r ∈ ranges, r.Proper)
    {start : Interval α} (hs : start.Proper) :
    start.Within (ranges.foldl hull start) ∧
      ∀ r ∈ ranges, r.Within (ranges.foldl hull start) := by
  induction ranges generalizing start with
  | nil => exact ⟨hs.within_self, fun r hr => absurd hr List.not_mem_nil⟩
  | cons first rest ih =>
    obtain ⟨hstart, hfirst⟩ := hs.within_hull (hr first List.mem_cons_self)
    obtain ⟨hnext, hrest⟩ :=
      ih (fun r hm => hr r (List.mem_cons_of_mem first hm)) (hstart.proper hs)
    refine ⟨hstart.trans hnext, fun r hm => ?_⟩
    rcases List.mem_cons.mp hm with rfl | hm
    · exact hfirst.trans hnext
    · exact hrest r hm

omit [LawfulScalar α] in
theorem clamp_of_lt_lower (h : v < range.lower) : range.clamp v = range.lower := if_pos h

theorem Proper.clamp_of_upper_lt (h : range.Proper) (hv : range.upper < v) :
    range.clamp v = range.upper := by
  have hlower : range.lower < v := Scalar.lt_of_le_of_lt h hv
  exact (if_neg (Scalar.lt_asymm hlower)).trans (if_pos hv)

/-- What does not exceed the lower end is moved there, unless it compares equal to it. -/
theorem Proper.clamp_of_le_lower (h : range.Proper) (hv : v ≤ range.lower) :
    range.clamp v = range.lower ∨ range.clamp v ≤ range.lower ∧ range.lower ≤ range.clamp v := by
  obtain ⟨hnum, hlower⟩ := LawfulScalar.isNaN_of_le hv
  by_cases hlt : v < range.lower
  · exact Or.inl (clamp_of_lt_lower hlt)
  · have hge : range.lower ≤ v := Scalar.le_of_not_lt hnum hlower hlt
    have hmem : v ∈ range := ⟨hge, LawfulScalar.le_trans hv h⟩
    rw [clamp_of_mem hmem]
    exact Or.inr ⟨hv, hge⟩

theorem Proper.clamp_of_upper_le (h : range.Proper) (hv : range.upper ≤ v) :
    range.clamp v = range.upper ∨ range.clamp v ≤ range.upper ∧ range.upper ≤ range.clamp v := by
  obtain ⟨hupper, hnum⟩ := LawfulScalar.isNaN_of_le hv
  by_cases hlt : range.upper < v
  · exact Or.inl (h.clamp_of_upper_lt hlt)
  · have hle : v ≤ range.upper := Scalar.le_of_not_lt hupper hnum hlt
    have hmem : v ∈ range := ⟨LawfulScalar.le_trans h hv, hle⟩
    rw [clamp_of_mem hmem]
    exact Or.inr ⟨hle, hv⟩

/-- A number moved into a wider range first is then moved to the same place, or to one that compares
equal. -/
theorem Within.clamp_clamp (h : inner.Within outer) (hi : inner.Proper) :
    inner.clamp (outer.clamp v) = inner.clamp v ∨
      inner.clamp (outer.clamp v) ≤ inner.clamp v ∧ inner.clamp v ≤ inner.clamp (outer.clamp v) := by
  by_cases hbelow : v < outer.lower
  · rw [clamp_of_lt_lower hbelow, clamp_of_lt_lower (Scalar.lt_of_lt_of_le hbelow h.lower_le)]
    exact hi.clamp_of_le_lower h.lower_le
  · by_cases habove : outer.upper < v
    · rw [(h.proper hi).clamp_of_upper_lt habove,
        hi.clamp_of_upper_lt (Scalar.lt_of_le_of_lt h.le_upper habove)]
      exact hi.clamp_of_upper_le h.le_upper
    · have hkept : outer.clamp v = v := (if_neg hbelow).trans (if_neg habove)
      exact Or.inl (congrArg _ hkept)

end DesignChart.Interval
