import Mathlib
import DesignChart.Dictionary

/-!
# The keys of several inputs

A map lists its keys in their order, so that two maps list the same keys as soon as they have the
same ones. Keyed inputs that do not disagree have one list of keys in common, and inputs of which
none is keyed have the key without labels alone. For each common key every input holds a value: the
shared one, or its own entry under that key.
-/

namespace DesignChart

namespace Key

/-- The key comes before the other one in order. -/
def Before (key other : Key) : Prop := compare key other = .lt

instance : LawfulBEq Key where
  eq_of_beq {key other} h := by
    cases key
    cases other
    exact congrArg Key.mk (eq_of_beq (α := List String) h)
  rfl {key} := beq_self_eq_true key.labels

instance : Std.Irrefl Before where
  irrefl key h := by
    have hself : compare key key = .eq := Std.ReflCmp.compare_self
    cases h.symm.trans hself

instance : Std.Asymm Before where
  asymm _ _ h h' := by cases (Std.OrientedCmp.gt_of_lt h).symm.trans h'

end Key

namespace KeyMap

variable {β γ : Type} (entries : KeyMap β)

theorem pairwise_keys : entries.keys.Pairwise Key.Before := Std.ExtTreeMap.ordered_keys

theorem keys_eq_of_mem_iff {keys : List Key} (hk : keys.Pairwise Key.Before)
    (h : ∀ key, key ∈ entries ↔ key ∈ keys) : entries.keys = keys :=
  List.Pairwise.eq_of_mem_iff (pairwise_keys entries) hk fun key =>
    Std.ExtTreeMap.mem_keys.trans (h key)

end KeyMap

namespace Input

variable {β : Type} {inputs : List (Input β)}

/-- Some keyed input has a key that another one lacks. -/
def Disagree (inputs : List (Input β)) : Prop :=
  ∃ entries entries' : KeyMap β, keyed entries ∈ inputs ∧ keyed entries' ∈ inputs ∧
    ∃ key, key ∈ entries ∧ key ∉ entries'

/-- The keys that inputs are keyed by, in order. -/
structure CommonKeys (inputs : List (Input β)) (keys : List Key) : Prop where
  ordered : keys.Pairwise Key.Before
  of_keyed : ∀ entries, keyed entries ∈ inputs → ∀ key, key ∈ keys ↔ key ∈ entries
  of_shared : (∀ input ∈ inputs, input.isKeyed = false) → keys = [.unit]

theorem mem_keyLists {keys : List Key} :
    keys ∈ inputs.filterMap keys? ↔ ∃ entries, keyed entries ∈ inputs ∧ entries.keys = keys := by
  rw [List.mem_filterMap]
  constructor
  · rintro ⟨input, hmem, hkeys⟩
    cases input with
    | shared value => cases hkeys
    | keyed entries => exact ⟨entries, hmem, Option.some.inj hkeys⟩
  · rintro ⟨entries, hmem, rfl⟩
    exact ⟨keyed entries, hmem, rfl⟩

theorem keyLists_eq_nil_iff :
    inputs.filterMap keys? = [] ↔ ∀ input ∈ inputs, input.isKeyed = false := by
  rw [List.filterMap_eq_nil_iff]
  refine forall₂_congr fun input _ => ?_
  cases input <;> simp [keys?, isKeyed]

/-- Keyed inputs that do not disagree list the same keys. -/
theorem keys_eq_of_not_disagree (h : ¬ Disagree inputs) {entries entries' : KeyMap β}
    (hmem : keyed entries ∈ inputs) (hmem' : keyed entries' ∈ inputs) :
    entries.keys = entries'.keys := by
  refine KeyMap.keys_eq_of_mem_iff entries (KeyMap.pairwise_keys entries') fun key => ?_
  rw [Std.ExtTreeMap.mem_keys]
  constructor
  · intro hkey
    by_contra hother
    exact h ⟨entries, entries', hmem, hmem', key, hkey, hother⟩
  · intro hkey
    by_contra hother
    exact h ⟨entries', entries, hmem', hmem, key, hkey, hother⟩

/-- What an input holds for a key: the shared value, or the entry under that key. -/
def held? : Input β → Key → Option β
  | shared value, _ => some value
  | keyed entries, key => entries[key]?

/-- A lookup finds what is held. -/
theorem get?_eq_held? (input : Input β) (key : Key) : input.get? key = input.held? key := by
  cases input with
  | shared value => rfl
  | keyed entries => rfl

/-- Each input holds a value for each of the common keys. -/
theorem CommonKeys.exists_held? {keys : List Key} (h : CommonKeys inputs keys) {key : Key}
    (hkey : key ∈ keys) {input : Input β} (hmem : input ∈ inputs) :
    ∃ value, input.held? key = some value := by
  cases input with
  | shared value => exact ⟨value, rfl⟩
  | keyed entries =>
    have hentry : key ∈ entries := (h.of_keyed entries hmem key).mp hkey
    exact Option.isSome_iff_exists.mp (Std.ExtTreeMap.mem_iff_isSome_getElem?.mp hentry)

end Input

namespace Dictionary

open Input (CommonKeys Disagree)

variable {α β : Type} {inputs : List (Input β)}

theorem commonKeys_cons (first : List Key) (rest : List (List Key)) :
    commonKeys (α := α) (first :: rest) =
      if ∀ set ∈ rest, set = first then .ok (some first)
      else .error (.keyMismatch (disputedKeys (first :: rest))) := by
  have hall : (rest.all (· == first) = true) ↔ ∀ set ∈ rest, set = first := by
    simp only [List.all_eq_true, beq_iff_eq]
  exact if_congr hall rfl rfl

theorem commonKeys_of_disagree (h : Disagree inputs) :
    ∃ keys, commonKeys (α := α) (inputs.filterMap Input.keys?) = .error (.keyMismatch keys) := by
  obtain ⟨entries, entries', hmem, hmem', key, hkey, hother⟩ := h
  have hset := Input.mem_keyLists.mpr ⟨entries, hmem, rfl⟩
  have hset' := Input.mem_keyLists.mpr ⟨entries', hmem', rfl⟩
  cases hsets : inputs.filterMap Input.keys? with
  | nil =>
    rw [hsets] at hset
    cases hset
  | cons first rest =>
    rw [hsets] at hset hset'
    have hdiffer : ¬ ∀ set ∈ rest, set = first := by
      intro hrest
      have hall : ∀ set ∈ first :: rest, set = first := List.forall_mem_cons.mpr ⟨rfl, hrest⟩
      have hsame : entries.keys = entries'.keys := (hall _ hset).trans (hall _ hset').symm
      rw [← Std.ExtTreeMap.mem_keys, ← hsame, Std.ExtTreeMap.mem_keys] at hother
      exact hother hkey
    rw [commonKeys_cons, if_neg hdiffer]
    exact ⟨_, rfl⟩

/-- Inputs that do not disagree have common keys; these are taken from the inputs unless none of
them is keyed. -/
theorem commonKeys_of_not_disagree (h : ¬ Disagree inputs) :
    ∃ keys, commonKeys (α := α) (inputs.filterMap Input.keys?) = .ok keys ∧
      CommonKeys inputs (keys.getD [.unit]) ∧
      (keys.isSome = true ↔ ∃ input ∈ inputs, input.isKeyed = true) := by
  cases hsets : inputs.filterMap Input.keys? with
  | nil =>
    have hshared := Input.keyLists_eq_nil_iff.mp hsets
    refine ⟨none, rfl, ⟨List.pairwise_singleton _ _, fun entries hmem => ?_, fun _ => rfl⟩, ?_⟩
    · cases hshared _ hmem
    · refine ⟨nofun, fun ⟨input, hmem, hkeyed⟩ => ?_⟩
      rw [hshared input hmem] at hkeyed
      cases hkeyed
  | cons first rest =>
    obtain ⟨entries, hmem, rfl⟩ : ∃ entries, .keyed entries ∈ inputs ∧ entries.keys = first :=
      Input.mem_keyLists.mp (hsets ▸ List.mem_cons_self)
    have hsame : ∀ set ∈ rest, set = entries.keys := by
      intro set hset
      obtain ⟨entries', hmem', rfl⟩ :=
        Input.mem_keyLists.mp (hsets ▸ List.mem_cons_of_mem _ hset)
      exact Input.keys_eq_of_not_disagree h hmem' hmem
    rw [commonKeys_cons, if_pos hsame]
    refine ⟨_, rfl, ⟨KeyMap.pairwise_keys entries, fun entries' hmem' key => ?_, fun hall => ?_⟩,
      fun _ => ⟨_, hmem, rfl⟩, fun _ => rfl⟩
    · rw [Option.getD_some, Input.keys_eq_of_not_disagree h hmem hmem', Std.ExtTreeMap.mem_keys]
    · cases hall _ hmem

end Dictionary

end DesignChart
