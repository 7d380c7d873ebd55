import Mathlib
import DesignChart.Proofs.Dictionary.Build

/-!
# Shared inputs written out

A shared input stands for its one value under every key. Written out for each key of some keyed
input it makes the same dictionary: no new key set comes in, so the inputs agree or disagree on
their keys as before, and about the same keys, and each key still has the same three arguments. This
is so for several shared inputs at once, and where there are no keys at all.
-/

namespace DesignChart

namespace Input

variable {β γ : Type}

/-- An input as it is, or a shared one with its value written out for each key of `entries`. -/
inductive WritesOut (entries : KeyMap γ) : Input β → Input β → Prop
  | kept (input : Input β) : WritesOut entries input input
  | each (value : β) : WritesOut entries (.shared value) (.keyed (entries.map fun _ _ => value))

variable {entries : KeyMap γ}

/-- What is written out gives the same value for each of the keys. -/
theorem WritesOut.get?_eq {input other : Input β} (h : WritesOut entries input other) {key : Key}
    (hkey : key ∈ entries) : other.get? key = input.get? key := by
  cases h with
  | kept => rfl
  | each value =>
    have hentry : (entries.map fun _ _ => value)[key]? = some value := by
      rw [Std.ExtTreeMap.getElem?_map, Std.ExtTreeMap.getElem?_eq_some_getElem hkey]
      rfl
    exact hentry

/-- Each key set is kept, and the only one that may come in is that of `entries`. -/
theorem keyLists_writesOut {inputs others : List (Input β)}
    (h : List.Forall₂ (WritesOut entries) inputs others) :
    inputs.filterMap keys? ⊆ others.filterMap keys? ∧
      others.filterMap keys? ⊆ entries.keys :: inputs.filterMap keys? := by
  induction h with
  | nil => exact ⟨List.nil_subset _, List.nil_subset _⟩
  | @cons input other inputs others hfirst _ ih =>
    obtain ⟨hkept, hknown⟩ := ih
    cases hfirst with
    | kept =>
      cases input with
      | shared value => exact ⟨hkept, hknown⟩
      | keyed own =>
        refine ⟨List.cons_subset_cons own.keys hkept, List.cons_subset.mpr ⟨?_, fun set hset => ?_⟩⟩
        · exact List.mem_cons_of_mem _ List.mem_cons_self
        · rcases List.mem_cons.mp (hknown hset) with rfl | hset
          · exact List.mem_cons_self
          · exact List.mem_cons_of_mem _ (List.mem_cons_of_mem _ hset)
    | each value =>
      have hkeys : (entries.map fun _ _ => value).keys = entries.keys := Std.ExtTreeMap.keys_map
      refine ⟨List.subset_cons_of_subset _ hkept, List.cons_subset.mpr ⟨?_, hknown⟩⟩
      rw [hkeys]
      exact List.mem_cons_self

theorem mem_keyLists_writesOut {inputs others : List (Input β)}
    (h : List.Forall₂ (WritesOut entries) inputs others)
    (hentries : entries.keys ∈ inputs.filterMap keys?) (set : List Key) :
    set ∈ others.filterMap keys? ↔ set ∈ inputs.filterMap keys? := by
  obtain ⟨hkept, hknown⟩ := keyLists_writesOut h
  constructor
  · intro hset
    rcases List.mem_cons.mp (hknown hset) with rfl | hset
    · exact hentries
    · exact hset
  · exact fun hset => hkept hset

end Input

namespace Dictionary

open Input (WritesOut)

variable {α : Type}

/-- The keys in dispute depend on which key sets there are, not on how often they are listed. -/
theorem disputedKeys_congr {sets others : List (List Key)} (h : ∀ set, set ∈ others ↔ set ∈ sets) :
    disputedKeys others = disputedKeys sets := by
  have hunion : Std.ExtTreeSet.ofList others.flatten = Std.ExtTreeSet.ofList sets.flatten := by
    refine Std.ExtTreeSet.ext_mem fun key => ?_
    rw [Std.ExtTreeSet.mem_ofList, Std.ExtTreeSet.mem_ofList, List.contains_iff_mem,
      List.contains_iff_mem, List.mem_flatten, List.mem_flatten]
    simp only [h]
  have hall : ∀ key : Key, others.all (·.contains key) = sets.all (·.contains key) := fun key => by
    rw [Bool.eq_iff_iff, List.all_eq_true, List.all_eq_true]
    simp only [h]
  unfold disputedKeys
  rw [hunion]
  simp only [hall]

/-- The key sets are all the same as the first if no two of them differ. -/
theorem eq_first_iff {first : List Key} {rest : List (List Key)} :
    (∀ set ∈ rest, set = first) ↔
      ∀ set ∈ first :: rest, ∀ set' ∈ first :: rest, set = set' := by
  constructor
  · intro h
    have hall : ∀ set ∈ first :: rest, set = first := List.forall_mem_cons.mpr ⟨rfl, h⟩
    intro set hset set' hset'
    exact (hall set hset).trans (hall set' hset').symm
  · intro h set hset
    exact h set (List.mem_cons_of_mem _ hset) first List.mem_cons_self

theorem commonKeys_congr {sets others : List (List Key)} (h : ∀ set, set ∈ others ↔ set ∈ sets) :
    commonKeys (α := α) others = commonKeys sets := by
  cases sets with
  | nil =>
    obtain rfl : others = [] := List.eq_nil_iff_forall_not_mem.mpr fun set hset => by
      cases (h set).mp hset
    rfl
  | cons first rest =>
    cases others with
    | nil => cases (h first).mpr List.mem_cons_self
    | cons first' rest' =>
      have hsame : (∀ set ∈ rest', set = first') ↔ ∀ set ∈ rest, set = first := by
        rw [eq_first_iff, eq_first_iff]
        simp only [h]
      rw [commonKeys_cons, commonKeys_cons, disputedKeys_congr h]
      by_cases hrest : ∀ set ∈ rest, set = first
      · have hfirst := eq_first_iff.mp hrest first' ((h first').mp List.mem_cons_self) first
          List.mem_cons_self
        rw [if_pos hrest, if_pos (hsame.mpr hrest), hfirst]
      · rw [if_neg hrest, if_neg (mt hsame.mp hrest)]

/-- Where key sets have one in common it is any one of them. -/
theorem eq_of_commonKeys {sets : List (List Key)} {set : List Key} (hset : set ∈ sets)
    {keys : Option (List Key)} (h : commonKeys (α := α) sets = .ok keys) : keys = some set := by
  cases sets with
  | nil => cases hset
  | cons first rest =>
    rw [commonKeys_cons] at h
    split at h
    next hrest =>
      obtain rfl := Except.ok.inj h
      exact congrArg some (eq_first_iff.mp hrest first List.mem_cons_self set hset)
    next => cases h

theorem get_congr {input other : Input (Readings α)} {key : Key}
    (h : other.get? key = input.get? key) :
    (other.get key : Except (Error α) (Readings α)) = input.get key := by
  unfold Input.get
  rw [h]

variable [Scalar α]

section Entries

variable {entries : KeyMap (Readings α)} {x x' y y' : Input (Readings α)}
  {z z' : Option (Input (Readings α))}

/-- The interpolant of one of the keys is built of the same arguments. -/
theorem buildEntry_writesOut (options : Options α) (hx : WritesOut entries x x')
    (hy : WritesOut entries y y') (hz : Option.Rel (WritesOut entries) z z') {key : Key}
    (hkey : key ∈ entries) :
    buildEntry x' y' z' options key = buildEntry x y z options key := by
  unfold buildEntry
  rw [get_congr (hx.get?_eq hkey), get_congr (hy.get?_eq hkey)]
  cases hz with
  | none => rfl
  | some hz =>
    dsimp only
    rw [get_congr (hz.get?_eq hkey)]

/-- Any of the shared inputs may be written out for each key of some keyed input: the dictionary, or
what is reported in its place, stays the same. -/
theorem build_writesOut (options : Options α) (hx : WritesOut entries x x')
    (hy : WritesOut entries y y') (hz : Option.Rel (WritesOut entries) z z')
    (hentries : .keyed entries ∈ x :: y :: z.toList) :
    build x' y' z' options = build x y z options := by
  have hwritten : List.Forall₂ (WritesOut entries) (x :: y :: z.toList) (x' :: y' :: z'.toList) := by
    cases hz with
    | none => exact .cons hx (.cons hy .nil)
    | some hz => exact .cons hx (.cons hy (.cons hz .nil))
  have hset : entries.keys ∈ (x :: y :: z.toList).filterMap Input.keys? :=
    Input.mem_keyLists.mpr ⟨entries, hentries, rfl⟩
  unfold build
  rw [commonKeys_congr (Input.mem_keyLists_writesOut hwritten hset)]
  cases hcommon : commonKeys (α := α) ((x :: y :: z.toList).filterMap Input.keys?) with
  | error e => rfl
  | ok keys =>
    obtain rfl := eq_of_commonKeys hset hcommon
    have hbuilt : entries.keys.mapM (buildEntry x' y' z' options) =
        entries.keys.mapM (buildEntry x y z options) :=
      Outcome.mapM_congr fun key hkey =>
        buildEntry_writesOut options hx hy hz (Std.ExtTreeMap.mem_keys.mp hkey)
    change (entries.keys.mapM (buildEntry x' y' z' options) >>= _) = _
    rw [hbuilt]
    rfl

/-- A family for each of two grades, whose outer samples and shared values are given once. -/
theorem build_writesOut_two_grades :
    let grids : KeyMap (Readings Float) :=
      .ofList [((⟨["C30"]⟩ : Key), (.grid #[#[0, 1], #[1, 0]] : Readings Float)),
        (⟨["C25"]⟩, .grid #[#[0, 2], #[2, 3]])]
    let outer : Readings Float := .vector #[1, 0]
    let values : Readings Float := .vector #[0, 1]
    build (.keyed (grids.map fun _ _ => outer)) (.keyed grids)
        (some (.keyed (grids.map fun _ _ => values))) ⟨some 1, .clamp⟩ =
      build (.shared outer) (.keyed grids) (some (.shared values)) ⟨some 1, .clamp⟩ := by
  intro grids outer values
  exact build_writesOut ⟨some 1, .clamp⟩ (.each outer) (.kept (.keyed grids)) (.some (.each values))
    (by simp)

end Entries

end Dictionary

end DesignChart
