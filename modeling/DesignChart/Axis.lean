import DesignChart.Error

/-!
Axes: the samples of one independent variable.

A chart may be tabulated in either direction. An axis keeps its samples increasing and remembers
whether they were supplied decreasing, so that `reorder` puts data aligned with the samples as
supplied beside the samples as kept.
-/

namespace DesignChart

/-- Increasing samples of one variable, at least two of them. -/
structure Axis (α : Type) where
  samples : Array α
  /-- The samples were supplied decreasing. -/
  reversed : Bool
  two_le_size : 2 ≤ samples.size

namespace Axis

variable {α β : Type}

/-- Each entry of a list stands in the relation `r` to the next one. -/
def linked (r : α → α → Bool) : List α → Bool
  | a :: b :: rest => r a b && linked r (b :: rest)
  | _ => true

/-- The axis through `samples`, which must be finite and either increase or decrease throughout. -/
def ofSamples [Scalar α] (samples : Array α) : Except (Fault α) (Axis α) :=
  if h : 2 ≤ samples.size then
    match samples.find? (fun v => !Scalar.isFinite v) with
    | some v => .error (.sampleNotFinite v)
    | none =>
      if samples[1] < samples[0] then
        if linked (fun a b => b < a) samples.toList then
          .ok ⟨samples.reverse, true, by simpa using h⟩
        else
          .error (.samplesNotMonotonic samples)
      else if linked (fun a b => a < b) samples.toList then
        .ok ⟨samples, false, h⟩
      else
        .error (.samplesNotMonotonic samples)
  else
    .error (.tooFewSamples samples.size)

/-- The number of samples. -/
def size (axis : Axis α) : Nat := axis.samples.size

theorem size_pos (axis : Axis α) : 0 < axis.samples.size :=
  Nat.lt_of_succ_le (Nat.le_of_succ_le axis.two_le_size)

theorem last_lt (axis : Axis α) : axis.samples.size - 1 < axis.samples.size :=
  Nat.pred_lt_of_lt axis.size_pos

def least (axis : Axis α) : α :=
  have := axis.size_pos
  axis.samples[0]

def greatest (axis : Axis α) : α :=
  have := axis.last_lt
  axis.samples[axis.samples.size - 1]

/-- From the least sample to the greatest. -/
def range (axis : Axis α) : Interval α := ⟨axis.least, axis.greatest⟩

/-- Data aligned with the samples as supplied, in the order of the samples as kept. -/
def reorder (axis : Axis α) (data : Array β) : Array β :=
  if axis.reversed then data.reverse else data

@[simp]
theorem size_reorder (axis : Axis α) (data : Array β) : (axis.reorder data).size = data.size := by
  unfold reorder
  split <;> simp

instance [BEq α] : BEq (Axis α) where
  beq axis other := axis.samples == other.samples && axis.reversed == other.reversed

end Axis

end DesignChart
