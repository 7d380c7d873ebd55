import Mathlib
import DesignChart.Proofs.Axis.Direction
import DesignChart.Proofs.Axis.Location
import DesignChart.Proofs.Scalar.Double

/-!
# What an axis makes of its samples

Only neighbouring samples are compared, and only the first two settle the direction. Still no order
but a strict one throughout is accepted, and then nothing is lost: the samples are those supplied,
in increasing order, and data aligned with them stay beside their own samples.
-/

namespace DesignChart.Axis

variable {α β : Type} [Scalar α]

/-- An axis holds the supplied samples in increasing order, and puts the data aligned with them in
the same order. -/
structure Arranges (axis : Axis α) (samples : Array α) : Prop where
  rises : Rises axis.samples
  reversed_iff : axis.reversed = true ↔ Falls samples
  eq_of_rises : Rises samples → axis.samples = samples
  eq_of_falls : Falls samples → axis.samples = samples.reverse
  least_mem : axis.least ∈ samples
  least_le : ∀ v ∈ samples, axis.least ≤ v
  greatest_mem : axis.greatest ∈ samples
  le_greatest : ∀ v ∈ samples, v ≤ axis.greatest
  /-- Every datum stands beside the sample it was supplied with, and nothing else does. -/
  pairs_perm : ∀ {β : Type} (data : Array β), data.size = samples.size →
    (axis.samples.zip (axis.reorder data)).Perm (samples.zip data)
  pairs_sorted : ∀ {β : Type} (data : Array β),
    (axis.samples.zip (axis.reorder data)).Pairwise fun p q => p.1 < q.1

omit [Scalar α] in
theorem reorder_reorder (axis : Axis α) (data : Array β) :
    axis.reorder (axis.reorder data) = data := by
  unfold reorder
  split
  · exact Array.reverse_reverse data
  · rfl

/-- Pairs taken in the order of their first parts are in that order. -/
theorem pairwise_zip_of_rises {samples : Array α} (h : Rises samples) (data : Array β) :
    (samples.zip data).Pairwise fun p q => p.1 < q.1 := by
  rw [Array.pairwise_iff_getElem]
  intro i j hi hj hij
  rw [Array.getElem_zip, Array.getElem_zip]
  exact Array.pairwise_iff_getElem.mp h i j _ _ hij

omit [Scalar α] in
theorem zip_reverse_perm (samples : Array α) {data : Array β} (h : data.size = samples.size) :
    (samples.reverse.zip data.reverse).Perm (samples.zip data) := by
  have hzip : samples.reverse.zip data.reverse = (samples.zip data).reverse := by
    apply Array.ext
    · simp
    · intro i hi hi'
      simp only [Array.size_zip, Array.size_reverse] at hi
      rw [Array.getElem_zip, Array.getElem_reverse, Array.getElem_reverse, Array.getElem_reverse,
        Array.getElem_zip]
      simp [h]
  rw [hzip, Array.perm_iff_toList_perm, Array.toList_reverse]
  exact List.reverse_perm _

variable [LawfulScalar α] {samples : Array α} {axis : Axis α}

theorem not_falls_of_rises (hsize : 2 ≤ samples.size) (hr : Rises samples) : ¬ Falls samples := by
  intro hf
  have hlt := Array.pairwise_iff_getElem.mp hr 0 1 (by omega) (by omega) Nat.zero_lt_one
  exact Scalar.lt_asymm hlt (Array.pairwise_iff_getElem.mp hf 0 1 _ _ Nat.zero_lt_one)

theorem mem_of_ofSamples (h : ofSamples samples = .ok axis) {v : α} :
    v ∈ axis.samples ↔ v ∈ samples := by
  rw [← reorder_of_ofSamples h, reorder]
  split
  · exact Array.mem_reverse
  · rfl

theorem mem_range_of_mem (h : ofSamples samples = .ok axis) {v : α} (hv : v ∈ samples) :
    v ∈ axis.range := by
  obtain ⟨i, hi, rfl⟩ := Array.mem_iff_getElem.mp ((mem_of_ofSamples h).mpr hv)
  exact (increasing_of_ofSamples h).sample_mem_range ⟨i, hi⟩

theorem arranges_of_ofSamples (h : ofSamples samples = .ok axis) : axis.Arranges samples := by
  obtain ⟨hv, hkept⟩ := ofSamples_eq_ok_iff.mp h
  have hrises : Rises axis.samples := (increasing_of_ofSamples h).rises
  have hexclusive := not_falls_of_rises hv.two_le_size
  refine {
    rises := hrises
    reversed_iff := ?_
    eq_of_rises := ?_
    eq_of_falls := ?_
    least_mem := (mem_of_ofSamples h).mp (Array.getElem_mem axis.size_pos)
    least_le := fun v hv => (mem_range_of_mem h hv).1
    greatest_mem := (mem_of_ofSamples h).mp (Array.getElem_mem axis.last_lt)
    le_greatest := fun v hv => (mem_range_of_mem h hv).2
    pairs_perm := ?_
    pairs_sorted := fun data => pairwise_zip_of_rises hrises (axis.reorder data) }
  · rcases hkept with ⟨hr, hrev, -⟩ | ⟨hf, hrev, -⟩
    · simp [hrev, hexclusive hr]
    · simp [hrev, hf]
  · intro hr
    rcases hkept with ⟨-, -, hs⟩ | ⟨hf, -, -⟩
    · exact hs
    · exact absurd hf (hexclusive hr)
  · intro hf
    rcases hkept with ⟨hr, -, -⟩ | ⟨-, -, hs⟩
    · exact absurd hf (hexclusive hr)
    · exact hs
  · intro β data hdata
    rw [← reorder_of_ofSamples h]
    unfold reorder
    split
    · exact zip_reverse_perm samples hdata
    · exact Array.Perm.refl _

/-- The samples accepted are at least two finite ones that increase or decrease throughout. An axis
holds them in increasing order, and so do data reordered beside them. In opposite order they make
the same axis but for the record of their direction. -/
theorem ofSamples_arranges (samples : Array α) :
    ((∃ axis, ofSamples samples = .ok axis) ↔ ValidSamples samples) ∧
      ∀ axis, ofSamples samples = .ok axis →
        axis.Arranges samples ∧
          ofSamples samples.reverse = .ok { axis with reversed := !axis.reversed } ∧
            ∀ {β : Type} (data : Array β), axis.reorder (axis.reorder data) = data := by
  refine ⟨exists_ofSamples_iff, fun axis h => ⟨arranges_of_ofSamples h, ?_, reorder_reorder axis⟩⟩
  have hturn := ofSamples_turn h true
  rwa [turn, Bool.xor_true] at hturn

/-- Three falling doubles, with a label supplied beside each. -/
theorem ofSamples_arranges_falling :
    ∃ axis : Axis Float, ofSamples #[4, 2, -1] = .ok axis ∧ axis.Arranges #[4, 2, -1] ∧
      axis.samples = #[-1, 2, 4] ∧ axis.reorder #["a", "b", "c"] = #["c", "b", "a"] := by
  obtain ⟨haccepted, harranged⟩ := ofSamples_arranges (α := Float) #[4, 2, -1]
  have hfalls : Falls (α := Float) #[4, 2, -1] := by decide +kernel
  obtain ⟨axis, h⟩ := haccepted.mpr (by decide +kernel)
  obtain ⟨harranges, -, -⟩ := harranged axis h
  refine ⟨axis, h, harranges, ?_, ?_⟩
  · rw [harranges.eq_of_falls hfalls]
    simp
  · rw [reorder, if_pos (harranges.reversed_iff.mpr hfalls)]
    simp

end DesignChart.Axis
