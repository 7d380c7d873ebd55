import Mathlib
import DesignChart.KeyGroups
import DesignChart.Proofs.Dictionary.Keys

/-!
# Groups of keys, key by key

Groups are read one key after another, each into the map of those before it. While no key is met
twice the map has exactly the entries read; the first key that is met again ends the reading and is
the one reported, wherever in the groups it stood before. So groups are accepted if and only if no
key occurs twice in all of them together.
-/

namespace DesignChart

namespace KeyMap

variable {β : Type}

/-- The map has the entries `pairs` and no others, each under a key of its own. -/
structure Holds (entries : KeyMap β) (pairs : List (Key × β)) : Prop where
  nodup : (pairs.map Prod.fst).Nodup
  getElem?_eq_some_iff : ∀ key value, entries[key]? = some value ↔ (key, value) ∈ pairs
  size_eq : entries.size = pairs.length

variable {entries : KeyMap β} {pairs : List (Key × β)}

theorem holds_empty : Holds (∅ : KeyMap β) [] where
  nodup := List.nodup_nil
  getElem?_eq_some_iff key value := by simp
  size_eq := rfl

theorem Holds.mem_iff (h : entries.Holds pairs) {key : Key} :
    key ∈ entries ↔ key ∈ pairs.map Prod.fst := by
  rw [Std.ExtTreeMap.mem_iff_isSome_getElem?, Option.isSome_iff_exists]
  simp only [h.getElem?_eq_some_iff, List.mem_map, Prod.exists, exists_and_right, exists_eq_right]

/-- An entry under a key that was not there yet comes after those read before. -/
theorem Holds.insert (h : entries.Holds pairs) {entry : Key × β}
    (hnew : entry.1 ∉ pairs.map Prod.fst) :
    Holds (entries.insert entry.1 entry.2) (pairs ++ [entry]) where
  nodup := by
    rw [List.map_append, List.nodup_append]
    refine ⟨h.nodup, List.nodup_singleton _, fun key hkey other hother => ?_⟩
    obtain rfl := List.mem_singleton.mp hother
    exact fun heq => hnew (heq ▸ hkey)
  getElem?_eq_some_iff key value := by
    rw [Std.ExtTreeMap.getElem?_insert, List.mem_append, List.mem_singleton]
    by_cases hkey : entry.1 = key
    · have hlacks : (key, value) ∉ pairs := fun hmem =>
        hnew (hkey ▸ List.mem_map_of_mem (f := Prod.fst) hmem)
      rw [if_pos (Std.LawfulEqCmp.compare_eq_iff_eq.mpr hkey), or_iff_right hlacks]
      obtain ⟨key', value'⟩ := entry
      obtain rfl : key' = key := hkey
      simp only [Option.some.injEq, Prod.mk.injEq, true_and, eq_comm]
    · have hother : (key, value) ≠ entry := fun heq => hkey (heq ▸ rfl)
      rw [if_neg (mt Std.LawfulEqCmp.compare_eq_iff_eq.mp hkey), h.getElem?_eq_some_iff,
        or_iff_left hother]
  size_eq := by
    have hlacks : ¬ entries.contains entry.1 = true := fun hcontains =>
      hnew (h.mem_iff.mp (Std.ExtTreeMap.contains_iff_mem.mp hcontains))
    rw [Std.ExtTreeMap.size_insert, if_neg hlacks, h.size_eq, List.length_append,
      List.length_singleton]

/-- Maps with the same entries are the same. -/
theorem Holds.eq_of_getElem? (h : entries.Holds pairs) {other : KeyMap β}
    (hother : ∀ key value, other[key]? = some value ↔ (key, value) ∈ pairs) : other = entries := by
  refine Std.ExtTreeMap.ext_getElem? fun key => Option.ext fun value => ?_
  exact (hother key value).trans (h.getElem?_eq_some_iff key value).symm

end KeyMap

namespace KeyGroups

variable {α β : Type} {groups : List (List Key × β)} {keys : List Key} {key : Key}

/-- The keys of all groups together, in the order supplied. -/
def allKeys (groups : List (List Key × β)) : List Key := groups.flatMap Prod.fst

theorem map_fst_pairs (groups : List (List Key × β)) :
    (pairs groups).map Prod.fst = allKeys groups := by
  induction groups with
  | nil => rfl
  | cons group rest ih =>
    show (group.1.map (·, group.2) ++ pairs rest).map Prod.fst = group.1 ++ allKeys rest
    rw [List.map_append, ih, List.map_map]
    exact congrArg (· ++ allKeys rest) (List.map_id _)

theorem mem_pairs {value : β} :
    (key, value) ∈ pairs groups ↔ ∃ group ∈ groups, key ∈ group.1 ∧ group.2 = value := by
  unfold pairs
  simp only [List.mem_flatMap, List.mem_map, Prod.mk.injEq, ↓existsAndEq, true_and]

/-- The key is the first one, in the order of the list, that was there before. -/
def FirstRepeated (keys : List Key) (key : Key) : Prop :=
  ∃ before after, keys = before ++ key :: after ∧ before.Nodup ∧ key ∈ before

theorem FirstRepeated.not_nodup (h : FirstRepeated keys key) : ¬ keys.Nodup := by
  obtain ⟨before, after, rfl, -, hkey⟩ := h
  intro hnodup
  exact List.disjoint_of_nodup_append hnodup hkey List.mem_cons_self

/-- Keys that are not all different have a first one that was there before. -/
theorem exists_firstRepeated (h : ¬ keys.Nodup) : ∃ key, FirstRepeated keys key := by
  induction keys using List.reverseRecOn with
  | nil => exact absurd List.nodup_nil h
  | append_singleton before last ih =>
    by_cases hbefore : before.Nodup
    · have hlast : last ∈ before := by
        by_contra hlast
        exact h (List.nodup_append.mpr ⟨hbefore, List.nodup_singleton _,
          fun key hkey other hother heq =>
            hlast (List.mem_singleton.mp hother ▸ heq ▸ hkey)⟩)
      exact ⟨last, before, [], rfl, hbefore, hlast⟩
    · obtain ⟨key, before', after, rfl, hnodup, hkey⟩ := ih hbefore
      exact ⟨key, before', after ++ [last], by simp, hnodup, hkey⟩

section Reading

variable {entries : KeyMap β} {read : List (Key × β)} {entry : Key × β}

theorem insertNew_of_not_mem (h : entries.Holds read) (hnew : entry.1 ∉ read.map Prod.fst) :
    insertNew (α := α) entries entry = .ok (entries.insert entry.1 entry.2) := by
  unfold insertNew
  rw [if_neg (mt h.mem_iff.mp hnew)]

theorem insertNew_of_mem (h : entries.Holds read) (hold : entry.1 ∈ read.map Prod.fst) :
    insertNew (α := α) entries entry = .error (.duplicateKey entry.1) := by
  unfold insertNew
  rw [if_pos (h.mem_iff.mpr hold)]

/-- As long as no key is met twice everything is read. -/
theorem foldlM_insertNew (rest : List (Key × β)) (h : entries.Holds read)
    (hnodup : ((read ++ rest).map Prod.fst).Nodup) :
    ∃ all, rest.foldlM (insertNew (α := α)) entries = .ok all ∧ all.Holds (read ++ rest) := by
  induction rest generalizing entries read with
  | nil => exact ⟨entries, rfl, by rwa [List.append_nil]⟩
  | cons entry rest ih =>
    have hnew : entry.1 ∉ read.map Prod.fst := by
      rw [List.map_append] at hnodup
      exact fun hold => List.disjoint_of_nodup_append hnodup hold List.mem_cons_self
    have hassoc : read ++ entry :: rest = (read ++ [entry]) ++ rest := by simp
    rw [hassoc] at hnodup ⊢
    rw [List.foldlM_cons, insertNew_of_not_mem h hnew]
    exact ih (h.insert hnew) hnodup

end Reading

theorem exists_ofGroups (h : (allKeys groups).Nodup) :
    ∃ entries, ofGroups (α := α) groups = .ok ⟨groups, entries⟩ ∧ entries.Holds (pairs groups) := by
  rw [← map_fst_pairs] at h
  obtain ⟨entries, hread, hentries⟩ := foldlM_insertNew (α := α) (pairs groups)
    KeyMap.holds_empty h
  refine ⟨entries, ?_, hentries⟩
  unfold ofGroups
  rw [hread]
  rfl

/-- The first key that was there before ends the reading. -/
theorem ofGroups_of_firstRepeated (h : FirstRepeated (allKeys groups) key) :
    ofGroups (α := α) groups = .error (.duplicateKey key) := by
  obtain ⟨before, after, hkeys, hnodup, hkey⟩ := h
  rw [← map_fst_pairs, List.map_eq_append_iff] at hkeys
  obtain ⟨read, rest, hpairs, rfl, hrest⟩ := hkeys
  obtain ⟨entry, rest, rfl, rfl, -⟩ := List.map_eq_cons_iff.mp hrest
  obtain ⟨entries, hread, hentries⟩ := foldlM_insertNew (α := α) read
    KeyMap.holds_empty hnodup
  unfold ofGroups
  rw [hpairs, List.foldlM_append, hread]
  show (do let all ← (do let next ← insertNew entries entry; rest.foldlM insertNew next); _) = _
  rw [insertNew_of_mem hentries hkey]
  rfl

/-- Each single key is looked up with the value of its group. -/
structure Flattens (groups : List (List Key × β)) (dict : KeyGroups β) : Prop where
  groups_eq : dict.groups = groups
  get?_eq_some_iff : ∀ key value, dict.get? key = some value ↔
    ∃ group ∈ groups, key ∈ group.1 ∧ group.2 = value
  get?_eq_none_iff : ∀ key, dict.get? key = none ↔ key ∉ allKeys groups
  contains_iff : ∀ key, dict.contains key = true ↔ key ∈ allKeys groups
  size_eq : dict.size = (allKeys groups).length
  ordered : dict.keys.Pairwise Key.Before
  mem_keys : ∀ key, key ∈ dict.keys ↔ key ∈ allKeys groups
  map_fst_toList : dict.toList.map Prod.fst = dict.keys
  mem_toList : ∀ key value, (key, value) ∈ dict.toList ↔ dict.get? key = some value

theorem flattens_of_holds {entries : KeyMap β} (h : entries.Holds (pairs groups)) :
    Flattens groups ⟨groups, entries⟩ where
  groups_eq := rfl
  get?_eq_some_iff key value := (h.getElem?_eq_some_iff key value).trans mem_pairs
  get?_eq_none_iff key := by
    rw [← map_fst_pairs, ← h.mem_iff, Std.ExtTreeMap.mem_iff_isSome_getElem?]
    exact Option.not_isSome_iff_eq_none.symm
  contains_iff key := by
    rw [← map_fst_pairs, ← h.mem_iff]
    exact Std.ExtTreeMap.contains_iff_mem
  size_eq := by
    rw [← map_fst_pairs, List.length_map]
    exact h.size_eq
  ordered := KeyMap.pairwise_keys entries
  mem_keys key := by
    rw [← map_fst_pairs, ← h.mem_iff]
    exact Std.ExtTreeMap.mem_keys
  map_fst_toList := Std.ExtTreeMap.map_fst_toList_eq_keys
  mem_toList key value := Std.ExtTreeMap.mem_toList_iff_getElem?_eq_some

/-- Groups are accepted if no key occurs twice in all of them together, and then each key has the
value of its group. Otherwise the first key in the order supplied that was there before is
reported. -/
theorem ofGroups_flattens (groups : List (List Key × β)) :
    ((∃ dict, ofGroups (α := α) groups = .ok dict) ↔ (allKeys groups).Nodup) ∧
      (∀ dict, ofGroups (α := α) groups = .ok dict → Flattens groups dict) ∧
      ∀ e : Error α, ofGroups groups = .error e ↔
        ∃ key, FirstRepeated (allKeys groups) key ∧ e = .duplicateKey key := by
  by_cases hnodup : (allKeys groups).Nodup
  · obtain ⟨entries, hok, hentries⟩ := exists_ofGroups (α := α) hnodup
    rw [hok]
    refine ⟨iff_of_true ⟨_, rfl⟩ hnodup, ?_, fun e => iff_of_false nofun ?_⟩
    · rintro dict hdict
      obtain rfl := Except.ok.inj hdict
      exact flattens_of_holds hentries
    · rintro ⟨key, hrepeated, -⟩
      exact hrepeated.not_nodup hnodup
  · obtain ⟨key, hrepeated⟩ := exists_firstRepeated hnodup
    have herror := ofGroups_of_firstRepeated (α := α) hrepeated
    rw [herror]
    refine ⟨iff_of_false (fun ⟨_, h⟩ => nomatch h) hnodup, nofun, fun e => ⟨?_, ?_⟩⟩
    · intro h
      exact ⟨key, hrepeated, (Except.error.inj h).symm⟩
    · rintro ⟨other, hother, rfl⟩
      exact herror.symm.trans (ofGroups_of_firstRepeated hother)

/-- Of several keys that come twice the one whose second place is the earliest. -/
example : ofGroups (α := Float) [([⟨["A"]⟩, ⟨["B"]⟩], 1), ([], 2), ([⟨["B"]⟩, ⟨["A"]⟩], 3)] =
    .error (.duplicateKey ⟨["B"]⟩) := by
  rfl

end KeyGroups

end DesignChart
