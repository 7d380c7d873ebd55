import Mathlib
import DesignChart.Proofs.Chart.Polyline
import DesignChart.Proofs.Matrix.Refined

/-!
# Refined tables read exactly

A sample between two neighbouring ones, with what is read there put beside it, changes no reading.
Every stretch between refined samples is a part of one between samples, and the chord between two
points of a straight line is that line.
-/

namespace DesignChart

/-- The curves cover the same range and are the same over it. -/
structure Curve.Alike (curve other : Curve ℚ) : Prop where
  range_eq : other.range = curve.range
  eval_eq : ∀ v ∈ curve.range, other.eval v = curve.eval v

/-- The value grids cover the same ranges and are the same over them. -/
structure ValueGrid.Alike (grid other : ValueGrid ℚ) : Prop where
  xRange_eq : other.xAxis.range = grid.xAxis.range
  yRange_eq : other.yAxis.range = grid.yAxis.range
  eval_eq : ∀ v ∈ grid.xAxis.range, ∀ w ∈ grid.yAxis.range, other.eval v w = grid.eval v w

/-- Each stretch between refined entries is a part of one between entries, the same part whatever
the entries are. -/
theorem exists_part {t : ℚ} (ht : 0 < t ∧ t < 1) {n k i : Nat} (hk : k + 1 < n) (hi : i < n) :
    ∃ j a b, j + 1 < n ∧ (0 ≤ a ∧ a < b ∧ b ≤ 1) ∧ ∀ value : Nat → ℚ,
      refinedAt (blend · · t) k value i = blend (value j) (value (j + 1)) a ∧
        refinedAt (blend · · t) k value (i + 1) = blend (value j) (value (j + 1)) b := by
  rcases Nat.lt_trichotomy i k with hlt | rfl | hgt
  · refine ⟨i, 0, 1, by omega, by norm_num, fun value => ?_⟩
    rw [refinedAt_of_le hlt.le, refinedAt_of_le hlt, blend_zero, blend_one]
    exact ⟨rfl, rfl⟩
  · refine ⟨i, 0, t, hk, ⟨le_rfl, ht.1, ht.2.le⟩, fun value => ?_⟩
    rw [refinedAt_of_le le_rfl, refinedAt_succ, blend_zero]
    exact ⟨rfl, rfl⟩
  · obtain rfl | ⟨j, rfl, hj⟩ : i = k + 1 ∨ ∃ j, i = j + 1 ∧ k < j := by
      rcases (Nat.succ_le_of_lt hgt).eq_or_lt with heq | hlt
      · exact Or.inl heq.symm
      · exact Or.inr ⟨i - 1, by omega, by omega⟩
    · refine ⟨k, t, 1, hk, ⟨ht.1.le, ht.2, le_rfl⟩, fun value => ?_⟩
      rw [refinedAt_succ, refinedAt_of_lt (Nat.lt_succ_self k), blend_one]
      exact ⟨rfl, rfl⟩
    · refine ⟨j, 0, 1, hi, by norm_num, fun value => ?_⟩
      rw [refinedAt_of_lt hj, refinedAt_of_lt (by omega), blend_zero, blend_one]
      exact ⟨rfl, rfl⟩

theorem ValidSamples.ne_next {samples : Array ℚ} (h : ValidSamples samples) {j : Nat}
    {hi : j < samples.size} (hj : j + 1 < samples.size) : samples[j] ≠ samples[j + 1] := by
  rcases h.monotonic with hrise | hfall
  · exact (Array.pairwise_iff_getElem.mp hrise j (j + 1) hi hj (Nat.lt_succ_self j)).ne
  · exact (Array.pairwise_iff_getElem.mp hfall j (j + 1) hi hj (Nat.lt_succ_self j)).ne'

/-- A number strictly between two neighbours is a mean of both. -/
theorem blend_share {samples : Array ℚ} {k : Nat} {hi : k < samples.size}
    {hk : k + 1 < samples.size} {m : ℚ}
    (h : m ∈ openGap samples k hk) :
    (0 < share samples k hk m ∧ share samples k hk m < 1) ∧
      blend samples[k] samples[k + 1] (share samples k hk m) = m := by
  have hmem : m ∈ Set.uIoo samples[k] samples[k + 1] := h
  have hne : samples[k + 1] - samples[k] ≠ 0 := by
    intro heq
    rw [sub_eq_zero.mp heq, Set.uIoo_self] at hmem
    exact hmem
  show (0 < (m - _) / _ ∧ (m - _) / _ < 1) ∧ blend _ _ ((m - _) / _) = m
  refine ⟨?_, ?_⟩
  · rcases (sub_ne_zero.mp hne).lt_or_gt with hlt | hgt
    · rw [Set.uIoo_of_gt hlt] at hmem
      rw [div_lt_one_of_neg (sub_neg.mpr hlt)]
      exact ⟨div_pos_of_neg_of_neg (sub_neg.mpr hmem.2) (sub_neg.mpr hlt),
        sub_lt_sub_right hmem.1 _⟩
    · rw [Set.uIoo_of_lt hgt] at hmem
      rw [div_lt_one (sub_pos.mpr hgt)]
      exact ⟨div_pos (sub_pos.mpr hmem.1) (sub_pos.mpr hgt), sub_lt_sub_right hmem.2 _⟩
  · rw [blend_eq]
    field_simp
    ring

section Samples

variable {samples : Array ℚ} {t : ℚ} (ht : 0 < t ∧ t < 1) {k : Nat} (hk : k + 1 < samples.size)
include ht hk

/-- Samples that follow each other in a direction still do when they are refined. -/
theorem pairwise_refine {r : ℚ → ℚ → Prop} [Trans r r r]
    (hr : ∀ {p q a b}, r p q → a < b → r (blend p q a) (blend p q b)) (h : samples.Pairwise r) :
    (refine (blend · · t) k samples).Pairwise r := by
  unfold Array.Pairwise at *
  rw [← List.isChain_iff_pairwise, List.isChain_iff_getElem] at *
  intro i hi
  have hi' : i < samples.size := by
    rw [Array.length_toList, size_refine hk] at hi
    omega
  obtain ⟨j, a, b, hj, ⟨-, hab, -⟩, hpart⟩ := exists_part ht hk hi'
  obtain ⟨hp, hq⟩ := hpart (samples.getD · 0)
  have hstep := hr (h j hj) hab
  simp only [Array.getElem_toList]
  rw [getElem_refine hk _ 0, getElem_refine hk _ 0, hp, hq]
  simpa [hj, Nat.lt_of_succ_lt hj] using hstep

theorem validSamples_refine (h : ValidSamples samples) :
    ValidSamples (refine (blend · · t) k samples) := by
  refine ⟨?_, fun _ _ => rfl, ?_⟩
  · rw [size_refine hk]
    omega
  rcases h.monotonic with hrise | hfall
  · refine Or.inl (pairwise_refine ht hk (r := (· < ·)) (fun hpq hab => ?_) hrise)
    rw [← sub_pos, blend_sub_blend]
    exact mul_pos (sub_pos.mpr hab) (sub_pos.mpr hpq)
  · refine Or.inr (pairwise_refine ht hk (r := (· > ·)) (fun hpq hab => ?_) hfall)
    rw [gt_iff_lt, ← sub_neg, blend_sub_blend]
    exact mul_neg_of_pos_of_neg (sub_pos.mpr hab) (sub_neg.mpr hpq)

/-- A gap of the refined samples lies in one of the samples, and shares of it are shares of that. -/
theorem gap_refine (h : ValidSamples samples) {i : Nat}
    (hi : i + 1 < (refine (blend · · t) k samples).size) :
    ∃ j, ∃ hj : j + 1 < samples.size,
      gap (refine (blend · · t) k samples) i hi ⊆ gap samples j hj ∧ ∀ (value : Nat → ℚ) v,
        blend (refinedAt (blend · · t) k value i) (refinedAt (blend · · t) k value (i + 1))
            (share (refine (blend · · t) k samples) i hi v) =
          blend (value j) (value (j + 1)) (share samples j hj v) := by
  have hi' : i < samples.size := by
    rw [size_refine hk] at hi
    omega
  obtain ⟨j, a, b, hj, ⟨ha, hab, hb⟩, hpart⟩ := exists_part ht hk hi'
  have hj' : j < samples.size := Nat.lt_of_succ_lt hj
  have hends := hpart (samples.getD · 0)
  rw [← getElem_refine hk (Nat.lt_of_succ_lt hi), ← getElem_refine hk hi] at hends
  simp only [Array.getD_eq_getD_getElem?, hj, hj', Array.getElem?_eq_getElem, Option.getD_some]
    at hends
  obtain ⟨hstart, hstop⟩ := hends
  refine ⟨j, hj, ?_, fun value v => ?_⟩
  · show Set.uIcc _ _ ⊆ Set.uIcc _ _
    rw [hstart, hstop]
    exact Set.uIcc_subset_uIcc (blend_mem_uIcc ⟨ha, hab.le.trans hb⟩ _ _)
      (blend_mem_uIcc ⟨ha.trans hab.le, hb⟩ _ _)
  · obtain ⟨hp, hq⟩ := hpart value
    show blend _ _ ((v - _) / (_ - _)) = blend _ _ ((v - _) / (_ - _))
    rw [hp, hq, hstart, hstop]
    exact blend_blend (h.ne_next hj) hab.ne _ _ v

omit ht in
theorem span_refine {mean : ℚ → ℚ → ℚ} : span (refine mean k samples) = span samples := by
  have hfirst : (refine mean k samples)[0]? = samples[0]? := by
    rw [getElem?_refine hk, refinedAt_of_le (Nat.zero_le k)]
  have hlast : (refine mean k samples).back? = samples.back? := by
    obtain ⟨n, hn⟩ : ∃ n, samples.size = n + 1 := ⟨samples.size - 1, by omega⟩
    rw [Array.back?, Array.back?, size_refine hk, hn, Nat.add_sub_cancel, Nat.add_sub_cancel,
      getElem?_refine hk, refinedAt_of_lt (by omega)]
  unfold span
  rw [hfirst, hlast]

end Samples

namespace Axis

/-- What is read at `v` of data supplied in the order of the samples. -/
def readSupplied (axis : Axis ℚ) (value : Nat → ℚ) (v : ℚ) : ℚ :=
  (axis.locate v).read (fun i => value (axis.place i)) v

variable {samples : Array ℚ} {axis axis' : Axis ℚ} {t v : ℚ} {k : Nat}

theorem readSupplied_gap (h : ofSamples samples = .ok axis) {i : Nat} (hi : i + 1 < samples.size)
    (hv : v ∈ gap samples i hi) (value : Nat → ℚ) :
    axis.readSupplied value v = blend (value i) (value (i + 1)) (share samples i hi v) := by
  have hn := size_of_ofSamples h
  let p : Fin axis.samples.size := ⟨i, by omega⟩
  let q : Fin axis.samples.size := ⟨i + 1, by omega⟩
  have hread := (read_gap (p := p) (q := q) h rfl hi hv fun j => value (axis.place j)).2
  rw [place_place, place_place] at hread
  exact hread

/-- Data that agree as far as there are samples are read alike. -/
theorem readSupplied_congr (h : ofSamples samples = .ok axis) {value value' : Nat → ℚ}
    (hvalue : ∀ i < samples.size, value i = value' i) :
    axis.readSupplied value v = axis.readSupplied value' v := by
  have hn := size_of_ofSamples h
  unfold readSupplied
  congr 1
  funext i
  exact hvalue _ (hn ▸ (axis.place i).isLt)

theorem readSupplied_blend (axis : Axis ℚ) (value value' : Nat → ℚ) :
    axis.readSupplied (fun i => blend (value i) (value' i) t) v =
      blend (axis.readSupplied value v) (axis.readSupplied value' v) t := by
  unfold readSupplied
  simp only [Cell.read_eq, blend_eq]
  ring

/-- To read refined data by line is to refine what is read of each line. -/
theorem readSupplied_refinedAt (axis : Axis ℚ) (z : Nat → Nat → ℚ) (j : Nat) (v : ℚ) :
    axis.readSupplied (fun i => refinedAt (blend · · t) k (z i) j) v =
      refinedAt (blend · · t) k (fun j => axis.readSupplied (z · j) v) j := by
  unfold refinedAt
  split
  next => rfl
  next =>
    split
    next => exact readSupplied_blend axis _ _
    next => rfl

variable (h : ofSamples samples = .ok axis) (hk : k + 1 < samples.size) (ht : 0 < t ∧ t < 1)
include h hk ht

variable (h' : ofSamples (refine (blend · · t) k samples) = .ok axis')
include h'

omit ht in
theorem range_refined : axis'.range = axis.range := by
  rw [← span_eq_range h', ← span_eq_range h, span_refine hk]

/-- Refined data are read as the data were. -/
theorem readSupplied_refined (hv : v ∈ axis.range) (value : Nat → ℚ) :
    axis'.readSupplied (refinedAt (blend · · t) k value) v = axis.readSupplied value v := by
  rw [← range_refined h hk h'] at hv
  obtain ⟨i, hi, hmem⟩ := exists_gap h' hv
  obtain ⟨j, hj, hgap, hshare⟩ := gap_refine ht hk (validSamples_of_ofSamples h) hi
  rw [readSupplied_gap h' hi hmem, readSupplied_gap h hj (hgap hmem), hshare]

end Axis

namespace Curve

variable {xs ys : Array ℚ} {xName yName : String} {curve curve' : Curve ℚ}

theorem eval_eq_readSupplied (h : ofSamples xs ys xName yName = .ok curve) (v : ℚ) :
    curve.eval v = curve.axis.readSupplied (ys.getD · 0) v := by
  have hvalue : curve.valueAt = fun i => ys.getD (curve.axis.place i) 0 := by
    funext i
    rw [← valueAt_place h, Axis.place_place]
  rw [eval_eq_read, hvalue]
  rfl

variable {t : ℚ} {k : Nat} (h : ofSamples xs ys xName yName = .ok curve) (hk : k + 1 < xs.size)
  (ht : 0 < t ∧ t < 1)
include h hk ht

theorem alike_refined
    (h' : ofSamples (refine (blend · · t) k xs) (refine (blend · · t) k ys) xName yName =
      .ok curve') : curve.Alike curve' := by
  obtain ⟨-, hsize⟩ := exists_ofSamples_iff.mp ⟨curve, h⟩
  obtain ⟨haxis, -, -⟩ := ofSamples_eq_ok_iff.mp h
  obtain ⟨haxis', hsize', -⟩ := ofSamples_eq_ok_iff.mp h'
  refine ⟨Axis.range_refined haxis hk haxis', fun v hv => ?_⟩
  rw [eval_eq_readSupplied h, eval_eq_readSupplied h',
    ← Axis.readSupplied_refined haxis hk ht haxis' hv]
  refine Axis.readSupplied_congr haxis' fun i hi => ?_
  have hi' : i < (refine (blend · · t) k ys).size := by
    rw [size_refine (hsize ▸ hk), hsize, ← size_refine hk]
    exact hi
  rw [← getElem_refine (hsize ▸ hk) hi']
  simp [hi']

end Curve

namespace ValueGrid

variable {xs ys : Array ℚ} {written : Matrix ℚ} {o : Orientation} {grid : ValueGrid ℚ}
  {z : Nat → Nat → ℚ}

theorem eval_eq_readSupplied (h : ofSamples xs ys written o = .ok grid)
    (hz : ∀ i < xs.size, ∀ j < ys.size, Matrix.entry? (written.orient o) i j = some (z i j))
    (v w : ℚ) : grid.eval v w =
      grid.yAxis.readSupplied (fun j => grid.xAxis.readSupplied (z · j) v) w := by
  have hvalue : grid.valueAt = fun i j => z (grid.xAxis.place i) (grid.yAxis.place j) := by
    funext i j
    rw [← valueAt_place h hz, Axis.place_place, Axis.place_place]
  rw [eval_eq_read, hvalue]
  rfl

variable {written' : Matrix ℚ} {o' : Orientation} {grid' : ValueGrid ℚ} {z' : Nat → Nat → ℚ}
  {t : ℚ} {k : Nat} (h : ofSamples xs ys written o = .ok grid)
  (hz : ∀ i < xs.size, ∀ j < ys.size, Matrix.entry? (written.orient o) i j = some (z i j))
  (ht : 0 < t ∧ t < 1)
include h hz ht

/-- A grid refined by a line, at a sample that stands between two of the first variable. -/
theorem alike_refinedLines (hk : k + 1 < xs.size)
    (h' : ofSamples (refine (blend · · t) k xs) ys written' o' = .ok grid')
    (hz' : ∀ i < (refine (blend · · t) k xs).size, ∀ j < ys.size,
      Matrix.entry? (written'.orient o') i j = some (refinedAt (blend · · t) k (z · j) i)) :
    grid.Alike grid' := by
  obtain ⟨hx, hy, -, -⟩ := ofSamples_eq_ok_iff.mp h
  obtain ⟨hx', hy', -, -⟩ := ofSamples_eq_ok_iff.mp h'
  have hyAxis : grid'.yAxis = grid.yAxis := Except.ok.inj (hy'.symm.trans hy)
  refine ⟨Axis.range_refined hx hk hx', congrArg Axis.range hyAxis, fun v hv w _ => ?_⟩
  rw [eval_eq_readSupplied h hz, eval_eq_readSupplied h' hz', hyAxis]
  exact Axis.readSupplied_congr hy fun j _ => Axis.readSupplied_refined hx hk ht hx' hv (z · j)

/-- A grid refined along its lines. What is read between two samples of the second variable is made
of what is read at these. -/
theorem alike_refinedAlong (hk : k + 1 < ys.size)
    (h' : ofSamples xs (refine (blend · · t) k ys) written' o' = .ok grid')
    (hz' : ∀ i < xs.size, ∀ j < (refine (blend · · t) k ys).size,
      Matrix.entry? (written'.orient o') i j = some (refinedAt (blend · · t) k (z i) j)) :
    grid.Alike grid' := by
  obtain ⟨hx, hy, -, -⟩ := ofSamples_eq_ok_iff.mp h
  obtain ⟨hx', hy', -, -⟩ := ofSamples_eq_ok_iff.mp h'
  have hxAxis : grid'.xAxis = grid.xAxis := Except.ok.inj (hx'.symm.trans hx)
  refine ⟨congrArg Axis.range hxAxis, Axis.range_refined hy hk hy', fun v _ w hw => ?_⟩
  rw [eval_eq_readSupplied h hz, eval_eq_readSupplied h' hz', hxAxis,
    ← Axis.readSupplied_refined hy hk ht hy' hw]
  refine Axis.readSupplied_congr hy' fun j _ => ?_
  exact Axis.readSupplied_refinedAt grid.xAxis z j v

end ValueGrid

end DesignChart
