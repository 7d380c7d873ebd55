import Mathlib
import DesignChart.Proofs.Axis.Reading
import DesignChart.Proofs.Chart.Curve
import DesignChart.Proofs.Chart.ValueGrid

/-!
# Charts read exactly between the numbers supplied

Between two neighbouring samples as supplied, in whichever direction they are supplied, a curve is
the chord of its two points and a value grid the weighted mean of the four values around. Nothing is
said here in terms of the samples as kept.
-/

namespace DesignChart

/-- The point at `v` of the straight line through `(x₀, y₀)` and `(x₁, y₁)`. -/
def chord (x₀ x₁ y₀ y₁ v : ℚ) : ℚ := y₀ + (y₁ - y₀) * (v - x₀) / (x₁ - x₀)

/-- The chord of point `k` and the next one. -/
def chordAt (xs ys : Array ℚ) (k : Nat) (hx : k + 1 < xs.size) (hy : k + 1 < ys.size) (v : ℚ) : ℚ :=
  have := Nat.lt_of_succ_lt hx
  have := Nat.lt_of_succ_lt hy
  chord xs[k] xs[k + 1] ys[k] ys[k + 1] v

/-- The numbers from sample `i` to the next one, in either direction. -/
def gap (samples : Array ℚ) (i : Nat) (hi : i + 1 < samples.size) : Set ℚ :=
  have := Nat.lt_of_succ_lt hi
  Set.uIcc samples[i] samples[i + 1]

/-- The numbers strictly between sample `i` and the next one. -/
def openGap (samples : Array ℚ) (i : Nat) (hi : i + 1 < samples.size) : Set ℚ :=
  have := Nat.lt_of_succ_lt hi
  Set.uIoo samples[i] samples[i + 1]

/-- How far `v` is from sample `i` towards the next one. -/
def share (samples : Array ℚ) (i : Nat) (hi : i + 1 < samples.size) (v : ℚ) : ℚ :=
  have := Nat.lt_of_succ_lt hi
  (v - samples[i]) / (samples[i + 1] - samples[i])

/-- The values of neighbouring samples, as supplied, differ by no more than `L` times the distance of
the samples. -/
def SlopesWithin (L : ℚ) (samples : Array ℚ) (value : Nat → ℚ) : Prop :=
  ∀ k (hk : k + 1 < samples.size), |value (k + 1) - value k| ≤ L * |samples[k + 1] - samples[k]|

/-- The mean of the four values around a cell, `s` and `u` being the shares of the later ones. -/
def cellMean (z : Nat → Nat → ℚ) (i j : Nat) (s u : ℚ) : ℚ :=
  (1 - s) * (1 - u) * z i j + s * (1 - u) * z (i + 1) j +
    (1 - s) * u * z i (j + 1) + s * u * z (i + 1) (j + 1)

theorem chord_eq_mean (x₀ x₁ y₀ y₁ v : ℚ) :
    chord x₀ x₁ y₀ y₁ v =
      (1 - (v - x₀) / (x₁ - x₀)) * y₀ + (v - x₀) / (x₁ - x₀) * y₁ := by
  unfold chord
  ring

namespace Axis

variable {samples : Array ℚ} {axis : Axis ℚ} (h : ofSamples samples = .ok axis)
  {p q : Fin axis.samples.size} (hpq : p.val + 1 = q.val) (hp : p.val + 1 < samples.size)
include h hpq

theorem samples_place :
    samples[p.val] = axis.sample (axis.place p) ∧ samples[p.val + 1] = axis.sample (axis.place q) := by
  refine ⟨sample_place h p (by omega), ?_⟩
  simp only [hpq]
  exact sample_place h q (by omega)

theorem gap_eq : gap samples p hp = Set.uIcc (axis.sample (axis.place p)) (axis.sample (axis.place q)) := by
  obtain ⟨hfirst, hsecond⟩ := samples_place h hpq hp
  unfold gap
  rw [← hfirst, ← hsecond]

theorem openGap_eq :
    openGap samples p hp = Set.uIoo (axis.sample (axis.place p)) (axis.sample (axis.place q)) := by
  obtain ⟨hfirst, hsecond⟩ := samples_place h hpq hp
  unfold openGap
  rw [← hfirst, ← hsecond]

theorem share_eq (v : ℚ) : share samples p hp v =
    (v - axis.sample (axis.place p)) / (axis.sample (axis.place q) - axis.sample (axis.place p)) := by
  obtain ⟨hfirst, hsecond⟩ := samples_place h hpq hp
  unfold share
  rw [← hfirst, ← hsecond]

/-- Between two samples as supplied, data are read as their mean. -/
theorem read_gap {v : ℚ} (hv : v ∈ gap samples p hp) (data : Fin axis.samples.size → ℚ) :
    v ∈ axis.range ∧ (axis.locate v).read data v =
      (1 - share samples p hp v) * data (axis.place p) + share samples p hp v * data (axis.place q) := by
  have haxis := increasing_of_ofSamples h
  rw [gap_eq h hpq hp] at hv
  refine ⟨haxis.mem_range_of_mem_uIcc hv, ?_⟩
  rw [haxis.locate_read (adjacent_place hpq) hv, share_eq h hpq hp]

end Axis

namespace Curve

variable {xs ys : Array ℚ} {xName yName : String} {curve : Curve ℚ}

theorem eval_between (h : ofSamples xs ys xName yName = .ok curve) {k : Nat}
    (hk : k + 1 < xs.size) (hk' : k + 1 < ys.size) {v : ℚ} (hv : v ∈ gap xs k hk) :
    v ∈ curve.range ∧ curve.eval v = chordAt xs ys k hk hk' v := by
  obtain ⟨haxis, hsize, -⟩ := ofSamples_eq_ok_iff.mp h
  have hn := Axis.size_of_ofSamples haxis
  let p : Fin curve.axis.samples.size := ⟨k, by omega⟩
  let q : Fin curve.axis.samples.size := ⟨k + 1, by omega⟩
  obtain ⟨hmem, hread⟩ := Axis.read_gap (p := p) (q := q) haxis rfl hk hv curve.valueAt
  have hfirst : ys[k] = curve.valueAt (curve.axis.place p) := value_place h p (by omega)
  have hsecond : ys[k + 1] = curve.valueAt (curve.axis.place q) := value_place h q hk'
  refine ⟨hmem, ?_⟩
  unfold chordAt
  rw [eval_eq_read, hread, chord_eq_mean, hfirst, hsecond]
  rfl

end Curve

namespace ValueGrid

variable {xs ys : Array ℚ} {written : Matrix ℚ} {o : Orientation} {grid : ValueGrid ℚ}

theorem eval_between (h : ofSamples xs ys written o = .ok grid) {z : Nat → Nat → ℚ}
    (hz : ∀ i < xs.size, ∀ j < ys.size, Matrix.entry? (written.orient o) i j = some (z i j))
    {i j : Nat} (hi : i + 1 < xs.size) (hj : j + 1 < ys.size) {a b : ℚ}
    (ha : a ∈ gap xs i hi) (hb : b ∈ gap ys j hj) :
    a ∈ grid.xAxis.range ∧ b ∈ grid.yAxis.range ∧
      grid.eval a b = cellMean z i j (share xs i hi a) (share ys j hj b) := by
  obtain ⟨hx, hy, -, -⟩ := ofSamples_eq_ok_iff.mp h
  have hm := Axis.size_of_ofSamples hx
  have hn := Axis.size_of_ofSamples hy
  let p : Fin grid.xAxis.samples.size := ⟨i, by omega⟩
  let p' : Fin grid.xAxis.samples.size := ⟨i + 1, by omega⟩
  let q : Fin grid.yAxis.samples.size := ⟨j, by omega⟩
  let q' : Fin grid.yAxis.samples.size := ⟨j + 1, by omega⟩
  have hvalue := valueAt_place h hz
  have hreadx := fun data => (Axis.read_gap (p := p) (q := p') hx rfl hi ha data).2
  have hready := fun data => (Axis.read_gap (p := q) (q := q') hy rfl hj hb data).2
  refine ⟨(Axis.read_gap (p := p) (q := p') hx rfl hi ha fun _ => 0).1,
    (Axis.read_gap (p := q) (q := q') hy rfl hj hb fun _ => 0).1, ?_⟩
  rw [eval_eq_read, hready, hreadx, hreadx, hvalue, hvalue, hvalue, hvalue, cellMean]
  ring

end ValueGrid

end DesignChart
