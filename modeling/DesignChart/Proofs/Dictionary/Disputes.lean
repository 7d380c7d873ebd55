import Mathlib
import DesignChart.Proofs.Dictionary.Sharing

/-!
# Keys in dispute

Keyed inputs with different key sets make no dictionary; what is reported in its place are the keys
that one of them has and another one lacks, each once and in order. With three keyed inputs that is
no symmetric difference: a key is in dispute whether one input lacks it or two. Shared inputs have
no keys and do not count, and it does not matter which argument a key set belongs to.
-/

namespace DesignChart

namespace Input

variable {β : Type} {inputs others : List (Input β)}

/-- Two keyed inputs have different key sets. -/
def Differ (inputs : List (Input β)) : Prop :=
  ∃ entries entries' : KeyMap β, keyed entries ∈ inputs ∧ keyed entries' ∈ inputs ∧
    ¬ ∀ key, key ∈ entries ↔ key ∈ entries'

/-- The key occurs in a keyed input and is missing from another one. -/
def Disputes (inputs : List (Input β)) (key : Key) : Prop :=
  (∃ entries : KeyMap β, keyed entries ∈ inputs ∧ key ∈ entries) ∧
    ∃ entries : KeyMap β, keyed entries ∈ inputs ∧ key ∉ entries

/-- The keyed inputs have the same key sets, whichever of them has which. -/
def KeyedAlike (inputs others : List (Input β)) : Prop :=
  ∀ set, set ∈ others.filterMap keys? ↔ set ∈ inputs.filterMap keys?

theorem disagree_iff_differ : Disagree inputs ↔ Differ inputs := by
  constructor
  · rintro ⟨entries, entries', hmem, hmem', key, hkey, hother⟩
    exact ⟨entries, entries', hmem, hmem', fun h => hother ((h key).mp hkey)⟩
  · rintro ⟨entries, entries', hmem, hmem', hdiffer⟩
    obtain ⟨key, hkey⟩ := not_forall.mp hdiffer
    -- one of the two has the key, whichever it is
    by_cases h : key ∈ entries
    · exact ⟨entries, entries', hmem, hmem', key, h, fun h' => hkey (iff_of_true h h')⟩
    · have h' : key ∈ entries' := by
        by_contra h'
        exact hkey (iff_of_false h h')
      exact ⟨entries', entries, hmem', hmem, key, h', h⟩

theorem disagree_iff_disputes : Disagree inputs ↔ ∃ key, Disputes inputs key := by
  constructor
  · rintro ⟨entries, entries', hmem, hmem', key, hkey, hother⟩
    exact ⟨key, ⟨entries, hmem, hkey⟩, entries', hmem', hother⟩
  · rintro ⟨key, ⟨entries, hmem, hkey⟩, entries', hmem', hother⟩
    exact ⟨entries, entries', hmem, hmem', key, hkey, hother⟩

end Input

namespace Dictionary

open Input (Differ Disagree Disputes KeyedAlike)

variable {α β : Type} {sets : List (List Key)} {keys : List Key} {key : Key}

theorem pairwise_disputedKeys (sets : List (List Key)) :
    (disputedKeys sets).Pairwise Key.Before :=
  Std.ExtTreeSet.ordered_toList.filter _

theorem mem_disputedKeys :
    key ∈ disputedKeys sets ↔ (∃ set ∈ sets, key ∈ set) ∧ ∃ set ∈ sets, key ∉ set := by
  have hunion : key ∈ (Std.ExtTreeSet.ofList sets.flatten).toList ↔ ∃ set ∈ sets, key ∈ set := by
    rw [Std.ExtTreeSet.mem_toList, Std.ExtTreeSet.mem_ofList, List.contains_iff_mem,
      List.mem_flatten]
  have hlacking : (!sets.all (·.contains key)) = true ↔ ∃ set ∈ sets, key ∉ set := by
    simp only [Bool.not_eq_true', List.all_eq_false, List.contains_iff_mem]
  unfold disputedKeys
  rw [List.mem_filter, hunion, hlacking]

theorem mem_disputedKeys_inputs {inputs : List (Input β)} :
    key ∈ disputedKeys (inputs.filterMap Input.keys?) ↔ Disputes inputs key := by
  have hset : ∀ P : List Key → Prop, (∃ set ∈ inputs.filterMap Input.keys?, P set) ↔
      ∃ entries : KeyMap β, .keyed entries ∈ inputs ∧ P entries.keys := by
    intro P
    simp only [Input.mem_keyLists]
    constructor
    · rintro ⟨_, ⟨entries, hmem, rfl⟩, h⟩
      exact ⟨entries, hmem, h⟩
    · rintro ⟨entries, hmem, h⟩
      exact ⟨_, ⟨entries, hmem, rfl⟩, h⟩
  rw [mem_disputedKeys, hset, hset]
  simp only [Std.ExtTreeMap.mem_keys]
  rfl

theorem eq_disputedKeys_of_commonKeys (h : commonKeys (α := α) sets = .error (.keyMismatch keys)) :
    keys = disputedKeys sets := by
  cases sets with
  | nil => cases h
  | cons first rest =>
    rw [commonKeys_cons] at h
    split at h
    next => cases h
    next =>
      cases h
      rfl

variable [Scalar α] (x y : Input (Readings α)) (z : Option (Input (Readings α)))
  (options : Options α)

/-- The keys reported are those in dispute among the key sets of the inputs. -/
theorem build_eq_keyMismatch_iff :
    build x y z options = .error (.keyMismatch keys) ↔
      Disagree (x :: y :: z.toList) ∧
        keys = disputedKeys ((x :: y :: z.toList).filterMap Input.keys?) := by
  constructor
  · intro h
    by_cases hdisagree : Disagree (x :: y :: z.toList)
    · obtain ⟨listed, hlisted⟩ := commonKeys_of_disagree (α := α) hdisagree
      unfold build at h
      rw [hlisted] at h
      cases h
      exact ⟨hdisagree, eq_disputedKeys_of_commonKeys hlisted⟩
    · obtain ⟨_, -, ⟨dict, hbuild, -⟩ | ⟨key, cause, -, hbuild⟩⟩ :=
        build_of_not_disagree options hdisagree
      · cases hbuild.symm.trans h
      · cases hbuild.symm.trans h
  · rintro ⟨hdisagree, rfl⟩
    obtain ⟨listed, hlisted⟩ := commonKeys_of_disagree (α := α) hdisagree
    unfold build
    rw [hlisted, eq_disputedKeys_of_commonKeys hlisted]
    rfl

/-- Inputs are refused with a list of keys if these are the keys in dispute, in order, and there is
one. -/
theorem build_eq_keyMismatch_iff_disputes :
    build x y z options = .error (.keyMismatch keys) ↔
      keys ≠ [] ∧ keys.Pairwise Key.Before ∧
        ∀ key, key ∈ keys ↔ Disputes (x :: y :: z.toList) key := by
  rw [build_eq_keyMismatch_iff, Input.disagree_iff_disputes]
  constructor
  · rintro ⟨⟨key, hkey⟩, rfl⟩
    refine ⟨List.ne_nil_of_mem (mem_disputedKeys_inputs.mpr hkey), pairwise_disputedKeys _,
      fun key => mem_disputedKeys_inputs⟩
  · rintro ⟨hne, hordered, hkeys⟩
    obtain ⟨key, hkey⟩ := List.exists_mem_of_ne_nil keys hne
    refine ⟨⟨key, (hkeys key).mp hkey⟩, ?_⟩
    exact List.Pairwise.eq_of_mem_iff hordered (pairwise_disputedKeys _) fun key =>
      (hkeys key).trans mem_disputedKeys_inputs.symm

/-- Inputs are refused for their keys if two keyed ones have different key sets, and then with the
keys in dispute, in order and at least one. Which they are depends on the key sets alone: not on
what is shared, nor on which argument has which of them. -/
theorem build_reports_disputed :
    ((∃ keys, build x y z options = .error (.keyMismatch keys)) ↔ Differ (x :: y :: z.toList)) ∧
      (∀ keys, build x y z options = .error (.keyMismatch keys) ↔
        keys ≠ [] ∧ keys.Pairwise Key.Before ∧
          ∀ key, key ∈ keys ↔ Disputes (x :: y :: z.toList) key) ∧
      ∀ (x' y' : Input (Readings α)) (z' : Option (Input (Readings α))) (options' : Options α),
        KeyedAlike (x :: y :: z.toList) (x' :: y' :: z'.toList) →
          ∀ keys, build x' y' z' options' = .error (.keyMismatch keys) ↔
            build x y z options = .error (.keyMismatch keys) := by
  refine ⟨?_, fun keys => build_eq_keyMismatch_iff_disputes x y z options, ?_⟩
  · rw [← Input.disagree_iff_differ]
    constructor
    · rintro ⟨keys, h⟩
      exact ((build_eq_keyMismatch_iff x y z options).mp h).1
    · intro h
      exact ⟨_, (build_eq_keyMismatch_iff x y z options).mpr ⟨h, rfl⟩⟩
  · intro x' y' z' options' halike keys
    rw [build_eq_keyMismatch_iff_disputes, build_eq_keyMismatch_iff_disputes]
    simp only [← mem_disputedKeys_inputs, disputedKeys_congr halike]

/-- Three grades of which each is missing from one input. -/
example : disputedKeys [[⟨["C25"]⟩, ⟨["C30"]⟩], [⟨["C30"]⟩, ⟨["C35"]⟩], [⟨["C35"]⟩, ⟨["C25"]⟩]] =
    [⟨["C25"]⟩, ⟨["C30"]⟩, ⟨["C35"]⟩] := by
  decide +kernel

end Dictionary

end DesignChart
