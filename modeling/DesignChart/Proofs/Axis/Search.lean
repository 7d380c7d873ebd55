import Mathlib
import DesignChart.Proofs.Axis.Location
import DesignChart.Proofs.Scalar.Double

/-!
# Halving finds the cell that a plain scan finds

Going through all cells, the one to read at is the last that begins at or before the number, or the
first if none does. Halving keeps two facts about its stretch of samples: it begins at the first
sample or at one that is not above the number, and no sample from its end on is that. So it ends
where the scan does, for every number and for what is no number too.
-/

namespace DesignChart.Axis

variable {α : Type} [Scalar α] {axis : Axis α}

/-- The cells that a scan passes: the first, and those that begin at or before `v`. -/
def passed (axis : Axis α) (v : α) : Set Nat :=
  { k | ∃ h : k + 1 < axis.samples.size, k = 0 ∨ axis.sample ⟨k, Nat.lt_of_succ_lt h⟩ ≤ v }

variable [LawfulScalar α]

namespace Increasing

variable (h : axis.Increasing) {v w : α}
include h

theorem not_le_of_not_le {i j : Fin axis.samples.size} (hij : i ≤ j) (hi : ¬ axis.sample i ≤ v) :
    ¬ axis.sample j ≤ v :=
  fun hj => hi (LawfulScalar.le_trans (h.le i j hij) hj)

/-- A stretch whose end lies above `v` is halved down to the last cell passed in it. -/
theorem isGreatest_bisect {low high : Nat} (low_lt : low < high)
    (high_lt : high < axis.samples.size)
    (hlow : low = 0 ∨ axis.sample ⟨low, low_lt.trans high_lt⟩ ≤ v)
    (hhigh : ¬ axis.sample ⟨high, high_lt⟩ ≤ v) :
    IsGreatest (axis.passed v) (axis.bisect v low high low_lt high_lt).index := by
  fun_induction bisect axis v low high low_lt high_lt with
  | case1 low high low_lt high_lt hgap hmid ih => exact ih (Or.inr hmid) hhigh
  | case2 low high low_lt high_lt hgap hmid ih => exact ih hlow hmid
  | case3 low high low_lt high_lt hgap =>
    refine ⟨⟨by simp only; omega, hlow⟩, ?_⟩
    rintro k ⟨hk, hpassed⟩
    by_contra hlt
    have hle : high ≤ k := by
      change ¬ k ≤ low at hlt
      omega
    rcases hpassed with rfl | hpassed
    · omega
    · exact h.not_le_of_not_le (Fin.mk_le_mk.mpr hle) hhigh hpassed

/-- The search ends at the last cell that a scan passes. -/
theorem isGreatest_locate (v : α) : IsGreatest (axis.passed v) (axis.locate v).index := by
  have hsize := axis.two_le_size
  unfold locate
  split
  next hle =>
    -- at or below the least sample no cell but the first is passed
    refine ⟨⟨by simp only; omega, Or.inl rfl⟩, ?_⟩
    rintro k ⟨hk, hzero | hpassed⟩
    · exact hzero.le
    · have hfirst : axis.sample ⟨k, by omega⟩ ≤ axis.sample ⟨0, axis.size_pos⟩ :=
        LawfulScalar.le_trans hpassed hle
      exact Fin.mk_le_mk.mp (h.sample_le_iff.mp hfirst)
  next hle =>
    split
    next hge =>
      -- at or above the greatest sample every cell is passed
      refine ⟨⟨by simp only; omega, Or.inr ?_⟩, ?_⟩
      · have hlast := h.le ⟨axis.samples.size - 2, by omega⟩ ⟨axis.samples.size - 1, by omega⟩
          (Fin.mk_le_mk.mpr (by omega))
        exact LawfulScalar.le_trans hlast hge
      · rintro k ⟨hk, -⟩
        change k ≤ axis.samples.size - 2
        omega
    next hge => exact h.isGreatest_bisect (by omega) axis.last_lt (Or.inl rfl) hge

theorem index_locate_mono (hvw : v ≤ w) : (axis.locate v).index ≤ (axis.locate w).index := by
  obtain ⟨⟨hlt, hpassed⟩, -⟩ := h.isGreatest_locate v
  exact (h.isGreatest_locate w).2
    ⟨hlt, hpassed.imp_right fun hle => LawfulScalar.le_trans hle hvw⟩

theorem index_locate_of_greatest_le (hv : axis.greatest ≤ v) :
    (axis.locate v).index = axis.samples.size - 2 := by
  have hsize := axis.two_le_size
  have hnext := (axis.locate v).next_lt
  have hlast : axis.samples.size - 2 ∈ axis.passed v := by
    refine ⟨by omega, Or.inr ?_⟩
    have hle := h.le ⟨axis.samples.size - 2, by omega⟩ ⟨axis.samples.size - 1, by omega⟩
      (Fin.mk_le_mk.mpr (by omega))
    exact LawfulScalar.le_trans hle hv
  have hge := (h.isGreatest_locate v).2 hlast
  omega

/-- A number from the least sample on and below the greatest is read between two samples. -/
theorem locate_brackets (hleast : axis.least ≤ v) (hgreatest : v < axis.greatest) :
    (axis.locate v).start ≤ v ∧ v < (axis.locate v).stop := by
  have hnext := (axis.locate v).next_lt
  obtain ⟨⟨hcell, hpassed⟩, hlast⟩ := h.isGreatest_locate v
  constructor
  · rcases hpassed with hzero | hle
    · have hfirst : (axis.locate v).low = ⟨0, axis.size_pos⟩ := Fin.ext hzero
      change axis.sample (axis.locate v).low ≤ v
      rw [hfirst]
      exact hleast
    · exact hle
  · have hnan := LawfulScalar.isNaN_of_le hleast
    refine Scalar.lt_of_not_le hnan.2 (h.isNaN_sample (axis.locate v).high) fun hstop => ?_
    by_cases hafter : (axis.locate v).index + 1 + 1 < axis.samples.size
    · -- the next cell would be passed too
      have hle : (axis.locate v).index + 1 ≤ (axis.locate v).index := hlast ⟨hafter, Or.inr hstop⟩
      omega
    · have hend : (axis.locate v).high = ⟨axis.samples.size - 1, axis.last_lt⟩ :=
        Fin.ext (by simp only [Cell.high]; omega)
      have hgreat : axis.sample (axis.locate v).high = axis.greatest := by
        rw [hend]
        rfl
      exact Scalar.not_le_of_lt hgreatest (hgreat ▸ hstop)

theorem eq_of_brackets {cell other : Cell axis} (hstart : cell.start ≤ v) (hstop : v < cell.stop)
    (hstart' : other.start ≤ v) (hstop' : v < other.stop) : cell = other := by
  have hlt : cell.low < other.high := h.sample_lt_iff.mp (Scalar.lt_of_le_of_lt hstart hstop')
  have hlt' : other.low < cell.high := h.sample_lt_iff.mp (Scalar.lt_of_le_of_lt hstart' hstop)
  cases cell
  cases other
  simp only [Cell.low, Cell.high, Fin.mk_lt_mk] at hlt hlt'
  congr
  omega

end Increasing

/-- On an accepted axis every number, and what is no number, is read in the last cell that a scan
passes. It has a sample at either end. Around a number between the least and the greatest sample it
is the only one, from the greatest sample on it is the last, and a greater number is never read in
an earlier one. -/
theorem locate_scans {samples : Array α} {axis : Axis α} (h : ofSamples samples = .ok axis) :
    (∀ v, IsGreatest (axis.passed v) (axis.locate v).index) ∧
      (∀ v, (axis.locate v).index + 1 < axis.samples.size) ∧
      (∀ v, axis.least ≤ v → v < axis.greatest →
        ((axis.locate v).start ≤ v ∧ v < (axis.locate v).stop) ∧
          ∀ cell : Cell axis, cell.start ≤ v → v < cell.stop → cell = axis.locate v) ∧
      (∀ v, axis.greatest ≤ v → (axis.locate v).index = axis.samples.size - 2) ∧
      ∀ v w, v ≤ w → (axis.locate v).index ≤ (axis.locate w).index := by
  have hi := increasing_of_ofSamples h
  refine ⟨hi.isGreatest_locate, fun v => (axis.locate v).next_lt, fun v hleast hgreatest => ?_,
    fun v => hi.index_locate_of_greatest_le, fun v w => hi.index_locate_mono⟩
  obtain ⟨hstart, hstop⟩ := hi.locate_brackets hleast hgreatest
  exact ⟨⟨hstart, hstop⟩, fun cell hcell hcell' => hi.eq_of_brackets hcell hcell' hstart hstop⟩

/-- What is no number passes the first cell only, the samples being supplied falling. -/
theorem locate_scans_no_number :
    ∃ axis : Axis Float, ofSamples #[4, 2, -1] = .ok axis ∧
      IsGreatest (axis.passed Float.nan) 0 ∧ IsGreatest (axis.passed 2) 1 := by
  obtain ⟨axis, h⟩ := exists_ofSamples_iff.mpr
    (show ValidSamples (α := Float) #[4, 2, -1] by decide +kernel)
  have haxis : axis = ⟨#[-1, 2, 4], true, by decide⟩ := by
    have hfalls : Falls (α := Float) #[4, 2, -1] := by decide +kernel
    rw [ofSamples_of_falls (by decide) (by decide +kernel) hfalls] at h
    rw [← Except.ok.inj h]
    simp
  obtain ⟨hscan, -⟩ := locate_scans h
  have hnan : (axis.locate Float.nan).index = 0 := by
    subst haxis
    decide +kernel
  have htwo : (axis.locate 2).index = 1 := by
    subst haxis
    decide +kernel
  exact ⟨axis, h, hnan ▸ hscan Float.nan, htwo ▸ hscan 2⟩

end DesignChart.Axis
