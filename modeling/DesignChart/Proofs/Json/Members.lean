import Mathlib
import DesignChart.Json

/-!
# What an object holds under a name

A member is looked up by its name among members that all have texts for names and do not repeat this
one. What is found does not depend on their order, nor on members of other names.
-/

namespace DesignChart.Json

/-- All members have texts for names. -/
def Named (members : List (Text × Json)) : Prop := ∀ member ∈ members, member.1.isSome = true

/-- The member called `name` of an object, if it has one. All names have to be texts, and this one
may not be repeated. -/
def member? (name : String) (members : List (Text × Json)) : Option (Option Json) :=
  if members.all (·.1.isSome) then
    match members.filter (·.1 = some name) with
    | [] => some none
    | [(_, value)] => some (some value)
    | _ => none
  else
    none

/-- What an object holds under a name that it does not repeat. -/
def Holds (members : List (Text × Json)) (name : String) : Option Json → Prop
  | some value => (some name, value) ∈ members
  | none => ∀ value, (some name, value) ∉ members

/-- A name stands twice among the members. -/
def Repeats (members : List (Text × Json)) (name : String) : Prop :=
  List.Duplicate (some name) (members.map Prod.fst)

/-- All names are texts, and none of the given ones stands twice. -/
def Distinct (names : List String) (members : List (Text × Json)) : Prop :=
  Named members ∧ ∀ name ∈ names, ¬ Repeats members name

section Member

variable {name other : String} {members members' before after : List (Text × Json)}
  {found : Option Json} {value : Json}

theorem repeats_iff :
    Repeats members name ↔ 2 ≤ (members.filter (·.1 = some name)).length := by
  refine List.duplicate_iff_two_le_count.trans ?_
  unfold List.count
  rw [List.countP_map, List.countP_eq_length_filter]
  exact Iff.rfl

theorem lookup_eq_head? (text : Text) (members : List (Text × Json)) :
    members.lookup text = (members.filter (·.1 = text)).head?.map Prod.snd := by
  induction members with
  | nil => rfl
  | cons member rest ih =>
    obtain ⟨text', value⟩ := member
    by_cases h : text = text'
    · rw [List.filter_cons_of_pos (by simpa using h.symm), h]
      exact List.lookup_cons_self
    · have hbeq : (text == text') = false := by simpa using h
      rw [List.filter_cons_of_neg (by simpa using Ne.symm h), ← ih, List.lookup_cons, hbeq]

theorem lookup_cons_of_ne {text other : Text} (h : other ≠ text) :
    List.lookup text ((other, value) :: members) = members.lookup text := by
  have hbeq : (text == other) = false := by simpa using h.symm
  rw [List.lookup_cons, hbeq]

/-- Where the first member's name is not repeated, it is not found further on. -/
theorem lookup_of_not_repeats {text : Text} (h : ¬ Repeats ((text, value) :: members) name) :
    ¬ Repeats members name ∧ (text = some name → members.lookup (some name) = none) := by
  unfold Repeats at h ⊢
  rw [List.map_cons, List.duplicate_cons_iff, not_or] at h
  refine ⟨h.2, fun htext => List.lookup_eq_none_iff.mpr fun member hmem => ?_⟩
  have hother : some name ≠ member.1 := by
    intro heq
    exact h.1 ⟨htext, heq ▸ List.mem_map_of_mem hmem⟩
  simpa using hother

/-- A member is looked up where all have names and its own is not repeated. -/
theorem member?_eq_some_iff : member? name members = some found ↔
    Named members ∧ ¬ Repeats members name ∧ members.lookup (some name) = found := by
  have hnamed : members.all (·.1.isSome) = true ↔ Named members := List.all_eq_true
  rw [repeats_iff, lookup_eq_head?, ← hnamed]
  unfold member?
  split
  next h =>
    generalize members.filter (·.1 = some name) = named
    rcases named with _ | ⟨first, _ | ⟨second, rest⟩⟩
    · simp [h]
    · simp [h]
    · simp
  next h => simp [h]

/-- Two members are looked up where neither is repeated. -/
theorem exists_member?_iff {p : Option Json → Option Json → Prop} :
    (∃ found found', member? name members = some found ∧ member? other members = some found' ∧
      p found found') ↔
    Distinct [name, other] members ∧
      p (members.lookup (some name)) (members.lookup (some other)) := by
  have hpair : (∀ name' ∈ [name, other], ¬ Repeats members name') ↔
      ¬ Repeats members name ∧ ¬ Repeats members other := by
    simp
  simp only [member?_eq_some_iff, Distinct, hpair]
  constructor
  · rintro ⟨_, _, ⟨hnamed, hname, rfl⟩, ⟨-, hother, rfl⟩, h⟩
    exact ⟨⟨hnamed, hname, hother⟩, h⟩
  · rintro ⟨⟨hnamed, hname, hother⟩, h⟩
    exact ⟨_, _, ⟨hnamed, hname, rfl⟩, ⟨hnamed, hother, rfl⟩, h⟩

/-- What is looked up is what is held. -/
theorem eq_of_holds {held : Option Json} (h : member? name members = some found)
    (hheld : Holds members name held) : found = held := by
  have hfilter (value : Json) : (some name, value) ∈ members.filter (·.1 = some name) ↔
      (some name, value) ∈ members := by
    simp
  unfold member? at h
  split_ifs at h
  split at h
  next hnone =>
    obtain rfl := Option.some.inj h
    rw [hnone] at hfilter
    cases held with
    | none => rfl
    | some value => cases (hfilter value).mpr hheld
  next stored value hone =>
    obtain rfl := Option.some.inj h
    rw [hone] at hfilter
    have hstored : stored = some name := by
      have hmem : (stored, value) ∈ members.filter (·.1 = some name) :=
        hone ▸ List.mem_singleton_self _
      simpa using (List.mem_filter.mp hmem).2
    cases held with
    | none => exact absurd ((hfilter value).mp (hstored ▸ List.mem_singleton_self _)) (hheld value)
    | some other =>
      have hsame := List.mem_singleton.mp ((hfilter other).mpr hheld)
      rw [(Prod.mk.inj hsame).2]
  next => cases h

theorem member?_perm (h : members.Perm members') :
    member? name members = member? name members' := by
  have hnames : members.all (·.1.isSome) = members'.all (·.1.isSome) := h.all_eq
  have hfilter := h.filter (·.1 = some name)
  unfold member?
  rw [hnames]
  generalize members.filter (·.1 = some name) = named at hfilter
  generalize members'.filter (·.1 = some name) = named' at hfilter
  rcases named with _ | ⟨first, _ | ⟨second, rest⟩⟩
  · rw [List.nil_perm.mp hfilter]
  · rw [List.singleton_perm.mp hfilter]
  · have hlength := hfilter.length_eq
    rcases named' with _ | ⟨first', _ | ⟨second', rest'⟩⟩
    · cases hlength
    · cases hlength
    · rfl

theorem member?_insert (hne : other ≠ name) :
    member? name (before ++ (some other, value) :: after) = member? name (before ++ after) := by
  have hnames : (before ++ (some other, value) :: after).all (·.1.isSome) =
      (before ++ after).all (·.1.isSome) := by
    rw [List.all_append, List.all_append, List.all_cons]
    rfl
  have hfilter : (before ++ (some other, value) :: after).filter (·.1 = some name) =
      (before ++ after).filter (·.1 = some name) := by
    rw [List.filter_append, List.filter_append, List.filter_cons_of_neg (by simpa using hne)]
  unfold member?
  rw [hnames, hfilter]

/-- What a member of another name holds does not matter. -/
theorem member?_swap (hne : other ≠ name) (value value' : Json) :
    member? name (before ++ (some other, value) :: after) =
      member? name (before ++ (some other, value') :: after) := by
  rw [member?_insert hne, member?_insert hne]

theorem holds_insert : Holds (before ++ (some name, value) :: after) name (some value) := by
  simp [Holds]

/-- A member that is looked up is the only one of its name. -/
theorem alone_of_member? (h : member? name (before ++ (some name, value) :: after) = some found) :
    (before ++ after).all (·.1.isSome) = true ∧
      (before ++ after).filter (·.1 = some name) = [] := by
  unfold member? at h
  split_ifs at h with hnames
  refine ⟨?_, ?_⟩
  · rw [List.all_append, List.all_cons] at hnames
    rw [List.all_append]
    exact hnames
  · rw [List.filter_append, List.filter_cons_of_pos (by simp)] at h
    rw [List.filter_append, ← List.length_eq_zero_iff, List.length_append]
    split at h
    next hnone => simp at hnone
    next hone =>
      have hlength := congrArg List.length hone
      rw [List.length_append, List.length_cons, List.length_singleton] at hlength
      omega
    next => cases h

/-- Without the only member of a name there is none of that name. -/
theorem member?_omit (h : member? name (before ++ (some name, value) :: after) = some found) :
    member? name (before ++ after) = some none := by
  obtain ⟨hnames, hfilter⟩ := alone_of_member? h
  unfold member?
  rw [if_pos hnames, hfilter]

/-- Another value in the place of the only member of a name is looked up instead. -/
theorem member?_replace (h : member? name (before ++ (some name, value) :: after) = some found)
    (value' : Json) :
    member? name (before ++ (some name, value') :: after) = some (some value') := by
  obtain ⟨hnames, hfilter⟩ := alone_of_member? h
  rw [List.all_append, Bool.and_eq_true] at hnames
  rw [List.filter_append, List.append_eq_nil_iff] at hfilter
  unfold member?
  rw [List.all_append, List.all_cons, hnames.1, hnames.2, List.filter_append,
    List.filter_cons_of_pos (by simp), hfilter.1, hfilter.2]
  rfl

end Member

end DesignChart.Json
