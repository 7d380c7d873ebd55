import Mathlib
import DesignChart.Axis
import DesignChart.Proofs.Scalar.Order

/-!
# Which samples make an axis

An axis looks at neighbouring samples only. With a transitive order that settles the order of any
two of them: the accepted samples are the finite ones, at least two, that increase or decrease
throughout, and an accepted axis keeps them increasing. Where a datum supplied beside a sample is
found after reordering is said by `Axis.place`.
-/

namespace DesignChart

/-- Every sample is below all later ones. -/
def Rises {α : Type} [Scalar α] (samples : Array α) : Prop := samples.Pairwise (· < ·)

/-- Every sample is above all later ones. -/
def Falls {α : Type} [Scalar α] (samples : Array α) : Prop := samples.Pairwise fun a b => b < a

instance {α : Type} [Scalar α] (samples : Array α) : Decidable (Rises samples) :=
  inferInstanceAs (Decidable (samples.toList.Pairwise (· < ·)))

instance {α : Type} [Scalar α] (samples : Array α) : Decidable (Falls samples) :=
  inferInstanceAs (Decidable (samples.toList.Pairwise fun a b => b < a))

/-- Samples that an axis can be laid through. -/
structure ValidSamples {α : Type} [Scalar α] (samples : Array α) : Prop where
  two_le_size : 2 ≤ samples.size
  isFinite : ∀ v ∈ samples, Scalar.isFinite v = true
  monotonic : Rises samples ∨ Falls samples

instance {α : Type} [Scalar α] (samples : Array α) : Decidable (ValidSamples samples) :=
  decidable_of_iff
    (2 ≤ samples.size ∧ (∀ v ∈ samples, Scalar.isFinite v = true) ∧ (Rises samples ∨ Falls samples))
    ⟨fun h => ⟨h.1, h.2.1, h.2.2⟩, fun h => ⟨h.1, h.2, h.3⟩⟩

namespace Axis

theorem linked_iff_isChain {α : Type} (r : α → α → Bool) (samples : List α) :
    linked r samples = true ↔ samples.IsChain fun a b => r a b = true := by
  induction samples with
  | nil => simp [linked]
  | cons a rest ih =>
    cases rest with
    | nil => simp [linked]
    | cons b rest => rw [linked, Bool.and_eq_true, ih, List.isChain_cons_cons]

variable {α β : Type} [Scalar α]

/-- An axis with its samples in the order that the search relies on. -/
structure Increasing (axis : Axis α) : Prop where
  isFinite : ∀ v ∈ axis.samples, Scalar.isFinite v = true
  rises : Rises axis.samples

/-- The sample in place `i`. -/
def sample (axis : Axis α) (i : Fin axis.samples.size) : α :=
  have := i.isLt
  axis.samples[i.val]

theorem Increasing.lt {axis : Axis α} (h : axis.Increasing) {i j : Fin axis.samples.size}
    (hij : i < j) : axis.sample i < axis.sample j :=
  Array.pairwise_iff_getElem.mp h.rises i j i.isLt j.isLt hij

theorem rises_reverse {samples : Array α} : Rises samples.reverse ↔ Falls samples := by
  unfold Rises Falls Array.Pairwise
  rw [Array.toList_reverse, List.pairwise_reverse]

theorem find?_eq_none_of_isFinite {samples : Array α}
    (hf : ∀ v ∈ samples, Scalar.isFinite v = true) :
    samples.find? (fun v => !Scalar.isFinite v) = none := by
  rw [Array.find?_eq_none]
  intro v hv
  simp [hf v hv]

section Order

variable [LawfulScalar α]

theorem linked_lt_iff (samples : Array α) :
    linked (fun a b => decide (a < b)) samples.toList = true ↔ Rises samples := by
  have : Trans (α := α) (· < ·) (· < ·) (· < ·) := ⟨Scalar.lt_trans⟩
  rw [linked_iff_isChain]
  simp only [decide_eq_true_eq]
  exact List.isChain_iff_pairwise

theorem linked_gt_iff (samples : Array α) :
    linked (fun a b => decide (b < a)) samples.toList = true ↔ Falls samples := by
  have : Trans (α := α) (fun a b => b < a) (fun a b => b < a) (fun a b => b < a) :=
    ⟨fun hba hcb => Scalar.lt_trans hcb hba⟩
  rw [linked_iff_isChain]
  simp only [decide_eq_true_eq]
  exact List.isChain_iff_pairwise

theorem ofSamples_of_rises {samples : Array α} (hs : 2 ≤ samples.size)
    (hf : ∀ v ∈ samples, Scalar.isFinite v = true) (h : Rises samples) :
    ofSamples samples = .ok ⟨samples, false, hs⟩ := by
  have hdir : ¬ samples[1] < samples[0] :=
    Scalar.lt_asymm (Array.pairwise_iff_getElem.mp h 0 1 _ _ Nat.zero_lt_one)
  unfold ofSamples
  rw [dif_pos hs, find?_eq_none_of_isFinite hf]
  dsimp only
  rw [if_neg hdir, if_pos ((linked_lt_iff samples).mpr h)]

theorem ofSamples_of_falls {samples : Array α} (hs : 2 ≤ samples.size)
    (hf : ∀ v ∈ samples, Scalar.isFinite v = true) (h : Falls samples) :
    ofSamples samples = .ok ⟨samples.reverse, true, by simpa using hs⟩ := by
  have hdir : samples[1] < samples[0] :=
    Array.pairwise_iff_getElem.mp h 0 1 _ _ Nat.zero_lt_one
  unfold ofSamples
  rw [dif_pos hs, find?_eq_none_of_isFinite hf]
  dsimp only
  rw [if_pos hdir, if_pos ((linked_gt_iff samples).mpr h)]

theorem validSamples_of_ofSamples {samples : Array α} {axis : Axis α}
    (h : ofSamples samples = .ok axis) : ValidSamples samples := by
  unfold ofSamples at h
  split at h
  next hs =>
    split at h
    next => cases h
    next hf =>
      have hfin : ∀ v ∈ samples, Scalar.isFinite v = true := by
        simpa using Array.find?_eq_none.mp hf
      refine ⟨hs, hfin, ?_⟩
      split at h
      · split at h
        next hl => exact Or.inr ((linked_gt_iff samples).mp hl)
        next => cases h
      · split at h
        next hl => exact Or.inl ((linked_lt_iff samples).mp hl)
        next => cases h
  next => cases h

/-- The samples of an accepted axis are those supplied, turned round where they fall. -/
theorem ofSamples_eq_ok_iff {samples : Array α} {axis : Axis α} :
    ofSamples samples = .ok axis ↔
      ValidSamples samples ∧
        (Rises samples ∧ axis.reversed = false ∧ axis.samples = samples ∨
          Falls samples ∧ axis.reversed = true ∧ axis.samples = samples.reverse) := by
  constructor
  · intro h
    have hv := validSamples_of_ofSamples h
    refine ⟨hv, ?_⟩
    rcases hv.monotonic with hr | hd
    · rw [ofSamples_of_rises hv.two_le_size hv.isFinite hr] at h
      obtain rfl := Except.ok.inj h
      exact Or.inl ⟨hr, rfl, rfl⟩
    · rw [ofSamples_of_falls hv.two_le_size hv.isFinite hd] at h
      obtain rfl := Except.ok.inj h
      exact Or.inr ⟨hd, rfl, rfl⟩
  · obtain ⟨kept, reversed, hk⟩ := axis
    rintro ⟨hv, ⟨hr, hrev, hkept⟩ | ⟨hd, hrev, hkept⟩⟩
    · subst hrev hkept
      exact ofSamples_of_rises hv.two_le_size hv.isFinite hr
    · subst hrev hkept
      exact ofSamples_of_falls hv.two_le_size hv.isFinite hd

theorem exists_ofSamples_iff {samples : Array α} :
    (∃ axis, ofSamples samples = .ok axis) ↔ ValidSamples samples := by
  constructor
  · rintro ⟨axis, h⟩
    exact validSamples_of_ofSamples h
  · intro hv
    rcases hv.monotonic with hr | hd
    · exact ⟨_, ofSamples_of_rises hv.two_le_size hv.isFinite hr⟩
    · exact ⟨_, ofSamples_of_falls hv.two_le_size hv.isFinite hd⟩

theorem increasing_of_ofSamples {samples : Array α} {axis : Axis α}
    (h : ofSamples samples = .ok axis) : axis.Increasing := by
  obtain ⟨hv, ⟨hr, -, hkept⟩ | ⟨hd, -, hkept⟩⟩ := ofSamples_eq_ok_iff.mp h
  · exact ⟨by rw [hkept]; exact hv.isFinite, by rw [hkept]; exact hr⟩
  · refine ⟨fun v hm => hv.isFinite v ?_, by rw [hkept]; exact rises_reverse.mpr hd⟩
    rw [hkept, Array.mem_reverse] at hm
    exact hm

end Order

section Place

omit [Scalar α]

/-- Where the datum supplied in place `k` stands after reordering. -/
def place (axis : Axis α) (k : Fin axis.samples.size) : Fin axis.samples.size :=
  if axis.reversed then k.rev else k

theorem val_place (axis : Axis α) (k : Fin axis.samples.size) :
    (axis.place k).val = if axis.reversed then axis.samples.size - 1 - k.val else k.val := by
  unfold place
  split
  · rw [Fin.val_rev]
    omega
  · rfl

theorem place_place (axis : Axis α) (i : Fin axis.samples.size) : axis.place (axis.place i) = i := by
  unfold place
  split
  · exact Fin.rev_rev i
  · rfl

theorem getElem?_reorder_place {axis : Axis α} {data : Array β}
    (hsize : data.size = axis.samples.size) (k : Fin axis.samples.size) :
    (axis.reorder data)[(axis.place k).val]? = data[k.val]? := by
  unfold reorder place
  cases axis.reversed with
  | false => rfl
  | true =>
    have hk := k.isLt
    simp only [if_true, Fin.val_rev]
    rw [Array.getElem?_reverse (by omega)]
    congr 1
    omega

end Place

theorem reorder_of_ofSamples [LawfulScalar α] {samples : Array α} {axis : Axis α}
    (h : ofSamples samples = .ok axis) : axis.reorder samples = axis.samples := by
  unfold reorder
  obtain ⟨-, ⟨-, hrev, hkept⟩ | ⟨-, hrev, hkept⟩⟩ := ofSamples_eq_ok_iff.mp h
  · rw [hrev, hkept]
    rfl
  · rw [hrev, hkept]
    rfl

theorem size_of_ofSamples [LawfulScalar α] {samples : Array α} {axis : Axis α}
    (h : ofSamples samples = .ok axis) : axis.samples.size = samples.size := by
  rw [← reorder_of_ofSamples h, size_reorder]

/-- The sample supplied in place `k`. -/
theorem sample_place [LawfulScalar α] {samples : Array α} {axis : Axis α}
    (h : ofSamples samples = .ok axis) (k : Fin axis.samples.size) (hk : k.val < samples.size) :
    samples[k.val] = axis.sample (axis.place k) := by
  have hplace := getElem?_reorder_place (size_of_ofSamples h).symm k
  rw [reorder_of_ofSamples h] at hplace
  simpa [hk, sample] using hplace.symm

end Axis

end DesignChart
