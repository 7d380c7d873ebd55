import DesignChart.Error

/-!
What becomes of a coordinate outside the range a chart covers.

A coordinate is admitted, perhaps moved, or answered in place of the chart, or refused. One that is
no number is refused by every policy, for there is no nearest sample to move it to.
-/

namespace DesignChart

/-- What to do with a coordinate out of range. -/
inductive RangePolicy (α : Type)
  /-- Refuse it. -/
  | raise
  /-- Answer with `value`. -/
  | fill (value : α)
  /-- Read at the nearest number in range. -/
  | clamp
deriving BEq, DecidableEq

/-- A number to go on with, or the answer itself. -/
inductive Admission (α : Type)
  | inside (v : α)
  | answered (value : α)

namespace Admission

variable {α : Type}

/-- Goes on from a number inside; an answer stands. -/
def map (f : α → α) : Admission α → Admission α
  | inside v => inside (f v)
  | answered value => answered value

/-- What is answered in the end. -/
def value : Admission α → α
  | inside v => v
  | answered value => value

end Admission

namespace RangePolicy

variable {α : Type}

/-- The policy of a pair of settings: a bounds error raises whatever is filled in otherwise, and
without a value to fill in the coordinate is moved. -/
def ofFlags : Bool → Option α → RangePolicy α
  | true, _ => raise
  | false, some value => fill value
  | false, none => clamp

def boundsError : RangePolicy α → Bool
  | raise => true
  | _ => false

def fillValue? : RangePolicy α → Option α
  | fill value => some value
  | _ => none

/-- Applies the policy to the coordinate `v` of the variable called `name`. -/
def apply [Scalar α] (policy : RangePolicy α) (name : String) (range : Interval α) (v : α) :
    Except (Error α) (Admission α) :=
  if v ∈ range then
    .ok (.inside v)
  else if Scalar.isNaN v then
    .error (.outOfDomain name v range)
  else
    match policy with
    | raise => .error (.outOfDomain name v range)
    | fill value => .ok (.answered value)
    | clamp => .ok (.inside (range.clamp v))

end RangePolicy

end DesignChart
