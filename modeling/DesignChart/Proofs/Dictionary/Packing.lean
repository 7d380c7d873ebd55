import Mathlib
import DesignChart.Dictionary
import DesignChart.Proofs.Dictionary.Groups

/-!
# Keyed inputs, however they are packed

A keyed input stands for the map of its keys. It may be handed over as pairs in any order, with
values that a later pair replaces, as a map that lists its entries in an order of its own, or as
groups of keys that share a value; what is made of it is the same input each time. So neither the
dictionary nor the error that is reported in its place depends on how the inputs were packed.
-/

namespace DesignChart

namespace KeyMap

variable {β : Type} {pairs : List (Key × β)} {key : Key} {value : β}

/-- Of all values that the pairs have for the key this is the last one. -/
def LastOf (pairs : List (Key × β)) (key : Key) (value : β) : Prop :=
  ∃ before after, pairs = before ++ (key, value) :: after ∧ key ∉ after.map Prod.fst

theorem LastOf.mem_keys (h : LastOf pairs key value) : key ∈ pairs.map Prod.fst := by
  obtain ⟨before, after, rfl, -⟩ := h
  simp

theorem lastOf_cons {pair : Key × β} :
    LastOf (pair :: pairs) key value ↔
      LastOf pairs key value ∨ key ∉ pairs.map Prod.fst ∧ pair = (key, value) := by
  constructor
  · rintro ⟨before, after, heq, hlast⟩
    cases before with
    | nil =>
      obtain ⟨rfl, rfl⟩ := List.cons_eq_cons.mp heq
      exact Or.inr ⟨hlast, rfl⟩
    | cons first before =>
      obtain ⟨rfl, rfl⟩ := List.cons_eq_cons.mp heq
      exact Or.inl ⟨before, after, rfl, hlast⟩
  · rintro (⟨before, after, rfl, hlast⟩ | ⟨hlast, rfl⟩)
    · exact ⟨pair :: before, after, rfl, hlast⟩
    · exact ⟨[], pairs, rfl, hlast⟩

/-- Under keys of their own all values are last ones. -/
theorem lastOf_iff_mem (h : (pairs.map Prod.fst).Nodup) :
    LastOf pairs key value ↔ (key, value) ∈ pairs := by
  constructor
  · rintro ⟨before, after, rfl, -⟩
    simp
  · intro hmem
    obtain ⟨before, after, rfl⟩ := List.append_of_mem hmem
    refine ⟨before, after, rfl, ?_⟩
    rw [List.map_append, List.map_cons] at h
    exact (List.nodup_cons.mp (List.Nodup.of_append_right h)).1

/-- Pairs are put into a map one after another, each in place of what was there under its key. -/
theorem getElem?_insertMany_eq_some_iff (entries : KeyMap β) :
    (entries.insertMany pairs)[key]? = some value ↔
      LastOf pairs key value ∨ key ∉ pairs.map Prod.fst ∧ entries[key]? = some value := by
  induction pairs generalizing entries with
  | nil => simp [LastOf]
  | cons pair rest ih =>
    obtain ⟨key', value'⟩ := pair
    rw [Std.ExtTreeMap.insertMany_cons, ih, lastOf_cons, List.map_cons, List.mem_cons, not_or,
      Std.ExtTreeMap.getElem?_insert]
    by_cases hkey : key' = key
    · subst hkey
      rw [if_pos Std.ReflCmp.compare_self]
      simp
    · rw [if_neg (mt Std.LawfulEqCmp.compare_eq_iff_eq.mp hkey)]
      simp [hkey, Ne.symm hkey]

theorem getElem?_ofList_eq_some_iff (pairs : List (Key × β)) :
    (Std.ExtTreeMap.ofList pairs : KeyMap β)[key]? = some value ↔ LastOf pairs key value := by
  rw [Std.ExtTreeMap.ofList_eq_insertMany_empty, getElem?_insertMany_eq_some_iff,
    Std.ExtTreeMap.getElem?_empty, or_iff_left (fun h => nomatch h.2)]

/-- Pairs whose last values are those of a map make that map. -/
theorem ofList_eq_of_lastOf {entries : KeyMap β}
    (h : ∀ key value, LastOf pairs key value ↔ entries[key]? = some value) :
    Std.ExtTreeMap.ofList pairs = entries := by
  refine Std.ExtTreeMap.ext_getElem? fun key => Option.ext fun value => ?_
  exact (getElem?_ofList_eq_some_iff pairs).trans (h key value)

/-- The pairs are the entries of a map, each once. -/
def Lists (pairs : List (Key × β)) (entries : KeyMap β) : Prop :=
  (pairs.map Prod.fst).Nodup ∧ ∀ key value, (key, value) ∈ pairs ↔ entries[key]? = some value

theorem Lists.ofList_eq {entries : KeyMap β} (h : Lists pairs entries) :
    Std.ExtTreeMap.ofList pairs = entries :=
  ofList_eq_of_lastOf fun key value => (lastOf_iff_mem h.1).trans (h.2 key value)

theorem lists_toList (entries : KeyMap β) : Lists entries.toList entries := by
  refine ⟨?_, fun key value => Std.ExtTreeMap.mem_toList_iff_getElem?_eq_some⟩
  rw [Std.ExtTreeMap.map_fst_toList_eq_keys]
  exact Std.ExtTreeMap.nodup_keys

/-- The order in which a hash map lists its entries depends on how its keys are hashed. -/
theorem lists_hashMap [Hashable Key] (map : Std.HashMap Key β) {entries : KeyMap β}
    (h : ∀ key : Key, map[key]? = entries[key]?) : Lists map.toList entries := by
  refine ⟨?_, fun key value => ?_⟩
  · rw [Std.HashMap.map_fst_toList_eq_keys]
    exact Std.HashMap.nodup_keys
  · rw [Std.HashMap.mem_toList_iff_getElem?_eq_some, h]

theorem Lists.perm {others : List (Key × β)} {entries : KeyMap β} (h : Lists pairs entries)
    (hperm : others.Perm pairs) : Lists others entries :=
  ⟨(hperm.map Prod.fst).nodup_iff.mpr h.1, fun key value => hperm.mem_iff.trans (h.2 key value)⟩

end KeyMap

/-- The groups part the keys of a map, each with the value that all its keys have there. -/
def KeyGroups.Parts {β : Type} (groups : List (List Key × β)) (entries : KeyMap β) : Prop :=
  (allKeys groups).Nodup ∧ ∀ key value, entries[key]? = some value ↔
    ∃ group ∈ groups, key ∈ group.1 ∧ group.2 = value

namespace Input

variable {α β : Type}

/-- The ways of handing over an input. Each of them comes to an input or is refused. -/
inductive Packed : Input β → Except (Error α) (Input β) → Prop
  | asIs (input : Input β) : Packed input (.ok input)
  /-- The entries in any order. -/
  | listed {entries : KeyMap β} (pairs : List (Key × β)) (h : KeyMap.Lists pairs entries) :
      Packed (.keyed entries) (.ok (.ofPairs pairs))
  /-- The last values of pairs in which keys may come more than once. -/
  | overwritten {entries : KeyMap β} (pairs : List (Key × β))
      (h : ∀ key value, KeyMap.LastOf pairs key value ↔ entries[key]? = some value) :
      Packed (.keyed entries) (.ok (.ofPairs pairs))
  /-- The entries in the order in which a map lists them. -/
  | sorted (entries : KeyMap β) : Packed (.keyed entries) (.ok (.ofPairs entries.toList))
  /-- The entries in any order in which a hash map may list them. -/
  | hashed [Hashable Key] {entries : KeyMap β} (map : Std.HashMap Key β) (pairs : List (Key × β))
      (h : ∀ key : Key, map[key]? = entries[key]?) (hpairs : pairs.Perm map.toList) :
      Packed (.keyed entries) (.ok (.ofPairs pairs))
  /-- Groups of keys with the same value. -/
  | grouped {entries : KeyMap β} (groups : List (List Key × β))
      (h : KeyGroups.Parts groups entries) :
      Packed (.keyed entries) (ofGroups <$> KeyGroups.ofGroups groups)

theorem ofPairs_of_lists {pairs : List (Key × β)} {entries : KeyMap β}
    (h : KeyMap.Lists pairs entries) : ofPairs pairs = keyed entries :=
  congrArg keyed h.ofList_eq

theorem ofGroups_of_parts {groups : List (List Key × β)} {entries : KeyMap β}
    (h : KeyGroups.Parts groups entries) :
    ofGroups <$> KeyGroups.ofGroups groups = (.ok (keyed entries) : Except (Error α) _) := by
  obtain ⟨read, hok, hread⟩ := KeyGroups.exists_ofGroups (α := α) h.1
  have hsame : entries = read := hread.eq_of_getElem? fun key value =>
    (h.2 key value).trans KeyGroups.mem_pairs.symm
  rw [hok, hsame]
  rfl

/-- However an input is packed, it is the same input. -/
theorem Packed.eq_ok {input : Input β} {packed : Except (Error α) (Input β)}
    (h : Packed input packed) : packed = .ok input := by
  cases h with
  | asIs => rfl
  | listed pairs h => rw [ofPairs_of_lists h]
  | overwritten pairs h => exact congrArg (Except.ok ∘ keyed) (KeyMap.ofList_eq_of_lastOf h)
  | sorted entries => rw [ofPairs_of_lists (KeyMap.lists_toList entries)]
  | hashed map pairs h hpairs => rw [ofPairs_of_lists ((KeyMap.lists_hashMap map h).perm hpairs)]
  | grouped groups h => exact ofGroups_of_parts h

end Input

namespace Dictionary

open Input (Packed)

variable {α : Type} [Scalar α]

/-- The dictionary of inputs that are unpacked first, in the order `x`, `y`, `z`. -/
def buildPacked (x y : Except (Error α) (Input (Readings α)))
    (z : Option (Except (Error α) (Input (Readings α)))) (options : Options α) :
    Except (Error α) (Dictionary α) := do
  let x ← x
  let y ← y
  let z ← match z with
    | none => .ok none
    | some z => some <$> z
  build x y z options

/-- Inputs that are packed in any way are the inputs meant, and make their dictionary or the error
reported in its place. -/
theorem build_however_packed {x y : Input (Readings α)} {z : Option (Input (Readings α))}
    {x' y' : Except (Error α) (Input (Readings α))}
    {z' : Option (Except (Error α) (Input (Readings α)))} (hx : Packed x x') (hy : Packed y y')
    (hz : Option.Rel Packed z z') :
    x' = .ok x ∧ y' = .ok y ∧ z' = z.map .ok ∧
      ∀ options, buildPacked x' y' z' options = build x y z options := by
  obtain rfl := hx.eq_ok
  obtain rfl := hy.eq_ok
  cases hz with
  | none => exact ⟨rfl, rfl, rfl, fun _ => rfl⟩
  | some hz =>
    obtain rfl := hz.eq_ok
    exact ⟨rfl, rfl, rfl, fun _ => rfl⟩

/-- Samples given twice for one grade, and values given once for both. -/
theorem build_however_packed_two_grades :
    let low : Key := ⟨["C25"]⟩
    let high : Key := ⟨["C30"]⟩
    let xs : Readings Float := .vector #[0, 1]
    let ys : Readings Float := .vector #[2, 3]
    buildPacked (.ok (.ofPairs [(high, ys), (low, xs), (high, xs)]))
        (Input.ofGroups <$> KeyGroups.ofGroups [([high, low], ys)]) none ⟨none, .raise⟩ =
      build (.keyed (.ofList [(low, xs), (high, xs)])) (.keyed (.ofList [(low, ys), (high, ys)]))
        none ⟨none, .raise⟩ := by
  intro low high xs ys
  have hkeys : ∀ values : Readings Float,
      ([(low, values), (high, values)].map Prod.fst).Nodup := fun values => by
    show [low, high].Nodup
    decide
  have hx : Packed (α := Float) (.keyed (.ofList [(low, xs), (high, xs)]))
      (.ok (.ofPairs [(high, ys), (low, xs), (high, xs)])) := by
    refine .overwritten _ fun key value => ?_
    rw [KeyMap.getElem?_ofList_eq_some_iff, KeyMap.lastOf_iff_mem (hkeys xs), KeyMap.lastOf_cons,
      KeyMap.lastOf_iff_mem (hkeys xs)]
    refine or_iff_left fun ⟨hlast, heq⟩ => ?_
    obtain ⟨rfl, -⟩ := Prod.mk.inj heq
    simp at hlast
  have hy : Packed (α := Float) (.keyed (.ofList [(low, ys), (high, ys)]))
      (Input.ofGroups <$> KeyGroups.ofGroups [([high, low], ys)]) := by
    refine .grouped _ ⟨by decide, fun key value => ?_⟩
    rw [KeyMap.getElem?_ofList_eq_some_iff, KeyMap.lastOf_iff_mem (hkeys ys)]
    simp only [List.mem_cons, Prod.mk.injEq, List.not_mem_nil, or_false, exists_eq_left]
    rw [← or_and_right, or_comm, eq_comm (a := value)]
  exact (build_however_packed hx hy .none).2.2.2 _

end Dictionary

end DesignChart
