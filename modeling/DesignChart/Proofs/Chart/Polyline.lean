import Mathlib
import DesignChart.Proofs.Chart.Exact

/-!
# Curves as polylines

What a table of points is meant to say, read off the points as supplied: the polyline through them,
one chord after the other. An accepted curve is that polyline over the whole of its range.
-/

namespace DesignChart

/-- The polyline through some points, at `v`: the first chord that reaches over it. -/
def polyline : List (ℚ × ℚ) → ℚ → Option ℚ
  | (x₀, y₀) :: (x₁, y₁) :: rest, v =>
    if min x₀ x₁ ≤ v ∧ v ≤ max x₀ x₁ then some (chord x₀ x₁ y₀ y₁ v)
    else polyline ((x₁, y₁) :: rest) v
  | _, _ => none

/-- From the lesser of the two outermost samples to the greater. -/
def span (samples : Array ℚ) : Interval ℚ where
  lower := min (samples[0]?.getD 0) (samples.back?.getD 0)
  upper := max (samples[0]?.getD 0) (samples.back?.getD 0)

/-- Where some chord reaches over `v`, the polyline is one of those that do. -/
theorem polyline_spec (points : List (ℚ × ℚ)) {v : ℚ} {k : Nat} (hk : k + 1 < points.length)
    (hv : v ∈ Set.uIcc points[k].1 points[k + 1].1) :
    ∃ l, ∃ hl : l + 1 < points.length, v ∈ Set.uIcc points[l].1 points[l + 1].1 ∧
      polyline points v =
        some (chord points[l].1 points[l + 1].1 points[l].2 points[l + 1].2 v) := by
  induction points generalizing k with
  | nil => simp at hk
  | cons first rest ih =>
    cases rest with
    | nil => simp at hk
    | cons next rest =>
      by_cases hfirst : v ∈ Set.uIcc first.1 next.1
      · exact ⟨0, by simp, hfirst, if_pos hfirst⟩
      · cases k with
        | zero => exact absurd hv hfirst
        | succ k =>
          obtain ⟨l, hl, hmem, heq⟩ := ih (k := k) (by simpa using hk) hv
          exact ⟨l + 1, by simpa using hl, hmem, (if_neg hfirst).trans heq⟩

namespace Axis

variable {samples : Array ℚ} {axis : Axis ℚ}

/-- A number in range lies between neighbouring samples as supplied. -/
theorem exists_gap (h : ofSamples samples = .ok axis) {v : ℚ} (hv : v ∈ axis.range) :
    ∃ k, ∃ hk : k + 1 < samples.size, v ∈ gap samples k hk := by
  have haxis := increasing_of_ofSamples h
  have hn := size_of_ofSamples h
  have hcell := (haxis.mem_uIcc_iff (axis.locate v)).mpr (contains_locate haxis hv)
  have hadj := adjacent_place (p := (axis.locate v).low) (q := (axis.locate v).high) rfl
  rcases hadj with hpq | hqp
  · refine ⟨axis.place (axis.locate v).low, by omega, ?_⟩
    rw [gap_eq h hpq, place_place, place_place]
    exact hcell
  · refine ⟨axis.place (axis.locate v).high, by omega, ?_⟩
    rw [gap_eq h hqp, place_place, place_place, Set.uIcc_comm]
    exact hcell

/-- A number in range is a sample or lies strictly between two neighbours. -/
theorem eq_sample_or_mem_openGap (h : ofSamples samples = .ok axis) {v : ℚ} (hv : v ∈ axis.range) :
    (∃ i, ∃ hi : i < samples.size, v = samples[i]) ∨
      ∃ i, ∃ hi : i + 1 < samples.size, v ∈ openGap samples i hi := by
  obtain ⟨i, hi, hmem⟩ := exists_gap h hv
  by_cases hfirst : v = samples[i]
  · exact Or.inl ⟨i, by omega, hfirst⟩
  · by_cases hlast : v = samples[i + 1]
    · exact Or.inl ⟨i + 1, hi, hlast⟩
    · refine Or.inr ⟨i, hi, ?_⟩
      rcases Set.mem_uIcc.mp hmem with ⟨hle, hge⟩ | ⟨hle, hge⟩
      · exact Set.mem_uIoo_of_lt (lt_of_le_of_ne hle (Ne.symm hfirst)) (lt_of_le_of_ne hge hlast)
      · rw [openGap, Set.uIoo_comm]
        exact Set.mem_uIoo_of_lt (lt_of_le_of_ne hle (Ne.symm hlast)) (lt_of_le_of_ne hge hfirst)

/-- An axis reaches over the span of its samples. -/
theorem span_eq_range (h : ofSamples samples = .ok axis) : span samples = axis.range := by
  have haxis := increasing_of_ofSamples h
  have hle : axis.least ≤ axis.greatest :=
    haxis.le ⟨0, axis.size_pos⟩ ⟨axis.samples.size - 1, axis.last_lt⟩
      (Fin.mk_le_mk.mpr (Nat.zero_le _))
  have hpos := axis.size_pos
  have hn := size_of_ofSamples h
  unfold span range
  rcases (ofSamples_eq_ok_iff.mp h).2 with ⟨-, -, hkept⟩ | ⟨-, -, hkept⟩
  · have hfirst : samples[0]?.getD 0 = axis.least := by simp [least, ← hkept, hpos]
    have hlast : samples.back?.getD 0 = axis.greatest := by
      simp [greatest, ← hkept, Array.back?, hpos]
    rw [hfirst, hlast, min_eq_left hle, max_eq_right hle]
  · have hfirst : samples[0]?.getD 0 = axis.greatest := by
      simp [greatest, hkept, hn ▸ hpos]
    have hlast : samples.back?.getD 0 = axis.least := by
      simp [least, hkept, Array.back?, hn ▸ hpos]
    rw [hfirst, hlast, min_eq_right hle, max_eq_left hle]

theorem sample_mem_span (h : ofSamples samples = .ok axis) {k : Nat} (hk : k < samples.size) :
    samples[k] ∈ span samples := by
  have hn := size_of_ofSamples h
  let p : Fin axis.samples.size := ⟨k, by omega⟩
  have hp : samples[k] = axis.sample (axis.place p) := sample_place h p hk
  rw [span_eq_range h, hp]
  exact (increasing_of_ofSamples h).mem_range_of_mem_uIcc (q := axis.place p) Set.left_mem_uIcc

theorem openGap_subset_span (h : ofSamples samples = .ok axis) {k : Nat}
    (hk : k + 1 < samples.size) {v : ℚ} (hv : v ∈ openGap samples k hk) : v ∈ span samples := by
  have hn := size_of_ofSamples h
  let p : Fin axis.samples.size := ⟨k, by omega⟩
  let q : Fin axis.samples.size := ⟨k + 1, by omega⟩
  have hmem : v ∈ gap samples p hk := Set.uIoo_subset_uIcc_self hv
  rw [span_eq_range h]
  exact (read_gap (q := q) h rfl hk hmem fun _ => 0).1

end Axis

/-- An accepted curve is the polyline through its points. -/
theorem Curve.polyline_eq {xs ys : Array ℚ} {xName yName : String} {curve : Curve ℚ}
    (h : ofSamples xs ys xName yName = .ok curve) (hsize : ys.size = xs.size) {v : ℚ}
    (hv : v ∈ curve.range) :
    polyline (xs.toList.zip ys.toList) v = some (curve.eval v) := by
  obtain ⟨k, hk, hmem⟩ := Axis.exists_gap (ofSamples_eq_ok_iff.mp h).1 hv
  obtain ⟨l, hl, hmem', heq⟩ :=
    polyline_spec (xs.toList.zip ys.toList) (k := k) (by simp [hsize, hk])
      (by simpa using (show v ∈ Set.uIcc xs[k] xs[k + 1] from hmem))
  have hl' : l + 1 < xs.size := by simpa [hsize] using hl
  have hgap : v ∈ gap xs l hl' := by simpa [gap] using hmem'
  obtain ⟨-, heval⟩ := eval_between h hl' (hsize ▸ hl') hgap
  rw [heq, heval]
  simp [chordAt]

end DesignChart
