import DesignChart.Error

/-!
Values shared by groups of keys.

A table of a standard often assigns one value to several classes at once. `KeyGroups` is built
from such groups and answers for each single key; no key may be named twice.
-/

namespace DesignChart

/-- Groups of keys with a value each, and the value of every single key. -/
structure KeyGroups (β : Type) where
  /-- The groups as supplied. -/
  groups : List (List Key × β)
  entries : KeyMap β

namespace KeyGroups

variable {α β : Type}

/-- Each key of each group with the value of its group, in the order supplied. -/
def pairs (groups : List (List Key × β)) : List (Key × β) :=
  groups.flatMap fun (keys, value) => keys.map (·, value)

/-- Adds an entry under a key that has none yet. -/
def insertNew (entries : KeyMap β) (entry : Key × β) : Except (Error α) (KeyMap β) :=
  if entry.1 ∈ entries then .error (.duplicateKey entry.1) else .ok (entries.insert entry.1 entry.2)

/-- The first key that was there already is refused. -/
def ofGroups (groups : List (List Key × β)) : Except (Error α) (KeyGroups β) := do
  return ⟨groups, ← (pairs groups).foldlM insertNew ∅⟩

def get? (dict : KeyGroups β) (key : Key) : Option β := dict.entries[key]?

def contains (dict : KeyGroups β) (key : Key) : Bool := dict.entries.contains key

/-- The number of single keys. -/
def size (dict : KeyGroups β) : Nat := dict.entries.size

/-- All single keys in order. -/
def keys (dict : KeyGroups β) : List Key := dict.entries.keys

/-- All single keys in order, with their values. -/
def toList (dict : KeyGroups β) : List (Key × β) := dict.entries.toList

end KeyGroups

end DesignChart
