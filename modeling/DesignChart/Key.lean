import Std.Data.ExtTreeMap

/-!
Keys of charts: the labels a chart is published under.

One chart of a family is chosen by a label such as a material grade, or by several at once. Keys
compare label by label, labels by their code points, so a shorter key precedes each of its
extensions. A `KeyMap` lists its entries in that order, and two of them are equal as soon as they
answer every key alike.
-/

namespace DesignChart

/-- An ordered tuple of labels. -/
structure Key where
  labels : List String
deriving BEq, DecidableEq, Inhabited

namespace Key

/-- The key without labels, for the one chart of a family that is not keyed. -/
def unit : Key := ⟨[]⟩

def arity (key : Key) : Nat := key.labels.length

def isUnit (key : Key) : Bool := key.labels.isEmpty

/-- A single label stands for itself; any other number of labels is written as a tuple. -/
def text (key : Key) : String :=
  match key.labels with
  | [label] => label
  | labels => "(" ++ ", ".intercalate labels ++ ")"

instance : Ord Key where
  compare key other := compare key.labels other.labels

theorem compare_def (key other : Key) : compare key other = compare key.labels other.labels := rfl

instance : Std.TransOrd Key where
  eq_swap {key other} := Std.OrientedOrd.eq_swap (a := key.labels) (b := other.labels)
  isLE_trans {key other third} := Std.TransOrd.isLE_trans (a := key.labels) (b := other.labels)
    (c := third.labels)

instance : Std.LawfulEqOrd Key where
  eq_of_compare {key other} h := by
    cases key
    cases other
    exact congrArg Key.mk (Std.LawfulEqCmp.eq_of_compare h)

end Key

/-- Finitely many keys with a value each, in the order of the keys. -/
abbrev KeyMap (β : Type) := Std.ExtTreeMap Key β

end DesignChart
