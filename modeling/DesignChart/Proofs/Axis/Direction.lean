import Mathlib
import DesignChart.Proofs.Axis.Location

/-!
# Axes tabulated in the other direction

Samples supplied in opposite order make the same axis, with the opposite record of their direction.
Nothing but that record changes, and no search looks at it: data supplied in opposite order too are
kept as before, and every number is read in the same cell.
-/

namespace DesignChart

/-- The data in opposite order, if `turn` says so. -/
def reverseIf {β : Type} (turn : Bool) (data : Array β) : Array β :=
  if turn then data.reverse else data

section Data

variable {β γ : Type}

@[simp]
theorem size_reverseIf (turn : Bool) (data : Array β) : (reverseIf turn data).size = data.size := by
  cases turn
  · rfl
  · exact Array.size_reverse

theorem reverseIf_reverseIf (a b : Bool) (data : Array β) :
    reverseIf b (reverseIf a data) = reverseIf (a ^^ b) data := by
  cases a <;> cases b <;> simp [reverseIf]

@[simp]
theorem reverseIf_self (turn : Bool) (data : Array β) :
    reverseIf turn (reverseIf turn data) = data := by
  rw [reverseIf_reverseIf, Bool.xor_self]
  rfl

theorem map_reverseIf (f : β → γ) (turn : Bool) (data : Array β) :
    (reverseIf turn data).map f = reverseIf turn (data.map f) := by
  cases turn
  · rfl
  · exact Array.map_reverse

end Data

namespace Axis

variable {α β : Type}

/-- The axis with its samples taken as supplied in the other direction, if `turn` says so. -/
def turn (axis : Axis α) (turn : Bool) : Axis α := { axis with reversed := axis.reversed ^^ turn }

@[simp]
theorem samples_turn (axis : Axis α) (turn : Bool) : (axis.turn turn).samples = axis.samples := rfl

@[simp]
theorem range_turn (axis : Axis α) (turn : Bool) : (axis.turn turn).range = axis.range := rfl

theorem turn_false (axis : Axis α) : axis.turn false = axis := by
  rw [turn, Bool.xor_false]

/-- Data turned round with the samples are kept in the same order. -/
theorem reorder_turn (axis : Axis α) (turn : Bool) (data : Array β) :
    (axis.turn turn).reorder (reverseIf turn data) = axis.reorder data := by
  change reverseIf (axis.reversed ^^ turn) (reverseIf turn data) = reverseIf axis.reversed data
  rw [reverseIf_reverseIf, Bool.xor_comm, Bool.xor_assoc, Bool.xor_self, Bool.xor_false]

/-- The datum supplied in place `k` of data turned round. -/
theorem place_turn (axis : Axis α) (turn : Bool) (k : Fin axis.samples.size) :
    (axis.turn turn).place k = axis.place (if turn then k.rev else k) := by
  unfold place
  cases turn <;> cases hrev : axis.reversed <;> simp [Axis.turn, hrev]

variable [Scalar α]

/-- Samples in opposite order make the same axis but for its direction. -/
theorem ofSamples_turn [LawfulScalar α] {samples : Array α} {axis : Axis α}
    (h : ofSamples samples = .ok axis) (turn : Bool) :
    ofSamples (reverseIf turn samples) = .ok (axis.turn turn) := by
  cases turn with
  | false => rwa [turn_false]
  | true =>
    obtain ⟨⟨hsize, hfinite, -⟩, hkept⟩ := ofSamples_eq_ok_iff.mp h
    have hsize' : 2 ≤ samples.reverse.size := Array.size_reverse.symm ▸ hsize
    have hfinite' : ∀ v ∈ samples.reverse, Scalar.isFinite v = true := fun v hv =>
      hfinite v (Array.mem_reverse.mp hv)
    change ofSamples samples.reverse = _
    rw [ofSamples_eq_ok_iff]
    rcases hkept with ⟨hr, hrev, hkept⟩ | ⟨hd, hrev, hkept⟩
    · have hfalls : Falls samples.reverse := by
        rw [← rises_reverse, Array.reverse_reverse]
        exact hr
      refine ⟨⟨hsize', hfinite', Or.inr hfalls⟩, Or.inr ⟨hfalls, ?_, ?_⟩⟩
      · simp [Axis.turn, hrev]
      · rw [samples_turn, hkept, Array.reverse_reverse]
    · have hrises : Rises samples.reverse := rises_reverse.mpr hd
      refine ⟨⟨hsize', hfinite', Or.inl hrises⟩, Or.inl ⟨hrises, ?_, ?_⟩⟩
      · simp [Axis.turn, hrev]
      · rw [samples_turn, hkept]

namespace Cell

variable {axis : Axis α}

omit [Scalar α] in
theorem ext {cell other : Cell axis} (h : cell.index = other.index) : cell = other := by
  cases cell
  cases other
  cases h
  rfl

/-- The same cell, on the axis taken in the other direction. -/
def turn (cell : Cell axis) (turn : Bool) : Cell (axis.turn turn) := ⟨cell.index, cell.next_lt⟩

end Cell

/-- Halving looks at the samples only. -/
theorem index_bisect (axis other : Axis α) (hs : other.samples = axis.samples) (v : α)
    {low high : Nat} (low_lt : low < high) (high_lt : high < axis.samples.size)
    (high_lt' : high < other.samples.size) :
    (other.bisect v low high low_lt high_lt').index =
      (axis.bisect v low high low_lt high_lt).index := by
  fun_induction bisect axis v low high low_lt high_lt with
  | case1 low high low_lt high_lt hgap hmid ih =>
    rw [bisect, dif_pos hgap, if_pos (by simpa only [hs] using hmid)]
    exact ih _
  | case2 low high low_lt high_lt hgap hmid ih =>
    rw [bisect, dif_pos hgap, if_neg (by simpa only [hs] using hmid)]
    exact ih _
  | case3 low high low_lt high_lt hgap =>
    rw [bisect, dif_neg hgap]

theorem bisect_turn (axis : Axis α) (turn : Bool) (v : α) {low high : Nat} (low_lt : low < high)
    (high_lt : high < axis.samples.size) :
    (axis.turn turn).bisect v low high low_lt high_lt =
      (axis.bisect v low high low_lt high_lt).turn turn :=
  Cell.ext (index_bisect axis (axis.turn turn) rfl v low_lt high_lt high_lt)

/-- A number is read in the same cell, in whichever direction the samples were supplied. -/
theorem locate_turn (axis : Axis α) (turn : Bool) (v : α) :
    (axis.turn turn).locate v = (axis.locate v).turn turn := by
  have hsize := axis.two_le_size
  unfold locate
  by_cases hleast : v ≤ axis.least
  · rw [if_pos hleast]
    exact if_pos hleast
  · rw [if_neg hleast]
    refine (if_neg hleast).trans ?_
    by_cases hgreatest : axis.greatest ≤ v
    · rw [if_pos hgreatest]
      exact if_pos hgreatest
    · rw [if_neg hgreatest]
      refine (if_neg hgreatest).trans ?_
      exact bisect_turn axis turn v (by omega) axis.last_lt

end Axis

end DesignChart
