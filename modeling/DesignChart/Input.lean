import DesignChart.KeyGroups

/-!
Inputs of a dictionary: given once for all keys, or for each key.
-/

namespace DesignChart

/-- One value for all keys, or a value for each of some keys. -/
inductive Input (β : Type)
  | shared (value : β)
  | keyed (entries : KeyMap β)

namespace Input

variable {α β : Type}

/-- An input for each key of `pairs`. Of several values for a key the last one counts. -/
def ofPairs (pairs : List (Key × β)) : Input β := keyed (.ofList pairs)

/-- An input for each key of a group. -/
def ofGroups (dict : KeyGroups β) : Input β := keyed dict.entries

def isKeyed : Input β → Bool
  | shared _ => false
  | keyed _ => true

/-- The keys of a keyed input, in order. -/
def keys? : Input β → Option (List Key)
  | shared _ => none
  | keyed entries => some entries.keys

/-- The value for `key`. -/
def get? : Input β → Key → Option β
  | shared value, _ => some value
  | keyed entries, key => entries[key]?

/-- The value for a `key` that must be there. -/
def get (input : Input β) (key : Key) : Except (Error α) β :=
  match input.get? key with
  | some value => .ok value
  | none => .error (.unknownKey key)

end Input

end DesignChart
