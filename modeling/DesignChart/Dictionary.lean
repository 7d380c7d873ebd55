import DesignChart.Interpolant
import DesignChart.Input
import Std.Data.ExtTreeSet

/-!
Dictionaries: one interpolant for each key.

A standard publishes one chart for each class of material, soil or exposure. Keyed inputs give the
data of each class, shared inputs the data that all classes have in common; all keyed inputs must
have the same keys. A dictionary is built as a whole or not at all.
-/

namespace DesignChart

/-- An interpolant for each key. -/
structure Dictionary (α : Type) where
  entries : KeyMap (Interpolant α)
  /-- At least one input was keyed. -/
  keyed : Bool

namespace Dictionary

variable {α : Type}

/-- The keys that one of several key sets has and another lacks, in order. -/
def disputedKeys (sets : List (List Key)) : List Key :=
  (Std.ExtTreeSet.ofList sets.flatten).toList.filter fun key => !sets.all (·.contains key)

/-- The one set that all the key sets are, if there is any set. -/
def commonKeys (sets : List (List Key)) : Except (Error α) (Option (List Key)) :=
  match sets with
  | [] => .ok none
  | first :: rest =>
    if rest.all (· == first) then .ok (some first) else .error (.keyMismatch (disputedKeys sets))

variable [Scalar α]

/-- The interpolant of one key. -/
def buildEntry (x y : Input (Readings α)) (z : Option (Input (Readings α))) (options : Options α)
    (key : Key) : Except (Error α) (Key × Interpolant α) := do
  let x ← x.get key
  let y ← y.get key
  let z ← match z with
    | none => .ok none
    | some z => some <$> z.get key
  let interpolant ← (Interpolant.build x y z options).mapError (.keyBuild key)
  return (key, interpolant)

/-- The interpolants of all keys of the inputs; a single one where no input is keyed. The first key
in order whose chart cannot be built is reported. -/
def build (x y : Input (Readings α)) (z : Option (Input (Readings α))) (options : Options α) :
    Except (Error α) (Dictionary α) := do
  let keys ← commonKeys ((x :: y :: z.toList).filterMap Input.keys?)
  let entries ← (keys.getD [Key.unit]).mapM (buildEntry x y z options)
  return ⟨.ofList entries, keys.isSome⟩

omit [Scalar α]

def get? (dict : Dictionary α) (key : Key) : Option (Interpolant α) := dict.entries[key]?

/-- The interpolant of a `key` that must be there. -/
def get (dict : Dictionary α) (key : Key) : Except (Error α) (Interpolant α) :=
  match dict.get? key with
  | some interpolant => .ok interpolant
  | none => .error (.unknownKey key)

/-- The only interpolant of a dictionary that is not keyed. -/
def single? (dict : Dictionary α) : Option (Interpolant α) :=
  if dict.keyed then none else dict.get? .unit

def contains (dict : Dictionary α) (key : Key) : Bool := dict.entries.contains key

def size (dict : Dictionary α) : Nat := dict.entries.size

def keys (dict : Dictionary α) : List Key := dict.entries.keys

/-- All keys in order, with their interpolants. -/
def toList (dict : Dictionary α) : List (Key × Interpolant α) := dict.entries.toList

end Dictionary

end DesignChart
