import Mathlib
import DesignChart.Proofs.Dictionary.Keys
import DesignChart.Proofs.Outcome

/-!
# Dictionaries key by key

A dictionary is what the interpolants of its keys are. Each key has the interpolant that is built of
what the inputs hold for it, the keys are built in order, and the first one that fails ends the
build. What an input holds is said here of its map, and not by the lookup that a build makes, so
that each key is known to be built of the entries under that key.
-/

namespace DesignChart.Dictionary

open Input (CommonKeys Disagree)

variable {α : Type} [Scalar α]

/-- The outcome of building one key alone, of what each input holds for it. -/
def alone (x y : Input (Readings α)) (z : Option (Input (Readings α))) (options : Options α)
    (key : Key) : Option (Except (Error α) (Interpolant α)) := do
  let x ← x.held? key
  let y ← y.held? key
  let z ← z.mapM (·.held? key)
  return Interpolant.build x y z options

omit [Scalar α] in
theorem get_eq_ok {β : Type} {input : Input β} {key : Key} {value : β}
    (h : input.held? key = some value) : input.get key = (.ok value : Except (Error α) β) := by
  unfold Input.get
  rw [input.get?_eq_held?, h]

/-- A dictionary has the interpolants that `outcome` tells of for `keys`, and no others. -/
structure Serves (dict : Dictionary α) (keys : List Key)
    (outcome : Key → Option (Except (Error α) (Interpolant α))) : Prop where
  keys_eq : dict.keys = keys
  of_mem : ∀ key ∈ keys, ∃ f, outcome key = some (.ok f) ∧ dict.get? key = some f ∧
    dict.get key = .ok f ∧ dict.contains key = true
  of_not_mem : ∀ key ∉ keys, dict.get? key = none ∧ dict.get key = .error (.unknownKey key) ∧
    dict.contains key = false

/-- No interpolant can be built for `key`, and it is the first key of which that is so. -/
structure FirstFailing (keys : List Key) (outcome : Key → Option (Except (Error α) (Interpolant α)))
    (key : Key) (cause : Error α) : Prop where
  mem : key ∈ keys
  failing : outcome key = some (.error cause)
  before : ∀ other ∈ keys, other.Before key → ∃ f, outcome other = some (.ok f)

section Build

variable (x y : Input (Readings α)) (z : Option (Input (Readings α))) (options : Options α)
  {key : Key} {keys : List Key}

theorem exists_alone (h : CommonKeys (x :: y :: z.toList) keys) (hkey : key ∈ keys) :
    ∃ outcome, alone x y z options key = some outcome := by
  obtain ⟨a, ha⟩ := h.exists_held? hkey (show x ∈ x :: y :: z.toList by simp)
  obtain ⟨b, hb⟩ := h.exists_held? hkey (show y ∈ x :: y :: z.toList by simp)
  unfold alone
  rw [ha, hb]
  cases z with
  | none => exact ⟨_, rfl⟩
  | some z =>
    obtain ⟨c, hc⟩ := h.exists_held? hkey (show z ∈ x :: y :: [z] by simp)
    refine ⟨Interpolant.build a b (some c) options, ?_⟩
    change (some <$> z.held? key).bind _ = _
    rw [hc]
    rfl

variable {x y z options}

theorem buildEntry_eq {outcome : Except (Error α) (Interpolant α)}
    (h : alone x y z options key = some outcome) :
    buildEntry x y z options key = (fun f => (key, f)) <$> outcome.mapError (.keyBuild key) := by
  obtain ⟨a, ha, h⟩ := Option.bind_eq_some_iff.mp h
  obtain ⟨b, hb, h⟩ := Option.bind_eq_some_iff.mp h
  obtain ⟨c, hc, h⟩ := Option.bind_eq_some_iff.mp h
  obtain rfl := Option.some.inj h
  unfold buildEntry
  rw [get_eq_ok ha, get_eq_ok hb]
  cases z with
  | none =>
    obtain rfl := Option.some.inj hc
    rfl
  | some z =>
    change some <$> z.held? key = some c at hc
    obtain ⟨c', hc', rfl⟩ := Option.map_eq_some_iff.mp hc
    dsimp only
    rw [get_eq_ok hc']
    rfl

theorem alone_of_buildEntry {outcome : Except (Error α) (Interpolant α)}
    (h : alone x y z options key = some outcome) {entry : Key × Interpolant α}
    (hentry : buildEntry x y z options key = .ok entry) :
    entry.1 = key ∧ alone x y z options key = some (.ok entry.2) := by
  rw [buildEntry_eq h, Outcome.map_eq_ok] at hentry
  obtain ⟨f, hf, rfl⟩ := hentry
  rw [Outcome.mapError_eq_ok] at hf
  exact ⟨rfl, h.trans (congrArg some hf)⟩

/-- The entries built are those of the keys, in order. -/
theorem entries_of_mapM (h : ∀ key ∈ keys, ∃ outcome, alone x y z options key = some outcome)
    {entries : List (Key × Interpolant α)}
    (hentries : keys.mapM (buildEntry x y z options) = .ok entries) :
    entries.map Prod.fst = keys ∧
      ∀ entry ∈ entries, alone x y z options entry.1 = some (.ok entry.2) := by
  have hall := Outcome.mapM_eq_ok.mp hentries
  clear hentries
  induction hall with
  | nil => exact ⟨rfl, nofun⟩
  | cons hentry _ ih =>
    obtain ⟨⟨outcome, hfirst⟩, hrest⟩ := List.forall_mem_cons.mp h
    obtain ⟨rfl, halone⟩ := alone_of_buildEntry hfirst hentry
    obtain ⟨hkeys, hentries⟩ := ih hrest
    exact ⟨congrArg _ hkeys, List.forall_mem_cons.mpr ⟨halone, hentries⟩⟩

/-- Of the keys whose interpolant cannot be built the first one is reported. -/
theorem first_of_mapM (hordered : keys.Pairwise Key.Before)
    (h : ∀ key ∈ keys, ∃ outcome, alone x y z options key = some outcome) {e : Error α}
    (he : keys.mapM (buildEntry x y z options) = .error e) :
    ∃ key cause, FirstFailing keys (alone x y z options) key cause ∧ e = .keyBuild key cause := by
  obtain ⟨before, key, after, rfl, hbefore, hkey⟩ := Outcome.first_of_mapM_eq_error he
  obtain ⟨outcome, houtcome⟩ := h key (by simp)
  rw [buildEntry_eq houtcome] at hkey
  obtain ⟨-, hafter, -⟩ := List.pairwise_append.mp hordered
  cases outcome with
  | ok f => cases hkey
  | error cause =>
    refine ⟨key, cause, ⟨by simp, houtcome, fun other hmem hlt => ?_⟩, (Except.error.inj hkey).symm⟩
    rcases List.mem_append.mp hmem with hmem | hmem
    · obtain ⟨entry, hentry⟩ := hbefore other hmem
      obtain ⟨outcome, hother⟩ := h other (by simp [hmem])
      exact ⟨entry.2, (alone_of_buildEntry hother hentry).2⟩
    · rcases List.mem_cons.mp hmem with rfl | hmem
      · exact absurd hlt (irrefl other)
      · exact absurd hlt (asymm ((List.pairwise_cons.mp hafter).1 other hmem))

omit [Scalar α] in
/-- A map of entries under ordered keys serves these keys. -/
theorem serves_ofList (hordered : keys.Pairwise Key.Before)
    {outcome : Key → Option (Except (Error α) (Interpolant α))}
    {entries : List (Key × Interpolant α)} (hkeys : entries.map Prod.fst = keys)
    (hentries : ∀ entry ∈ entries, outcome entry.1 = some (.ok entry.2)) (keyed : Bool) :
    Serves ⟨.ofList entries, keyed⟩ keys outcome := by
  have hmem : ∀ key, key ∈ Std.ExtTreeMap.ofList entries ↔ key ∈ keys := fun key => by
    rw [Std.ExtTreeMap.mem_ofList, hkeys, List.contains_iff_mem]
  have hdistinct : entries.Pairwise fun a b => ¬ compare a.1 b.1 = .eq := by
    rw [← hkeys, List.pairwise_map] at hordered
    exact hordered.imp fun hlt heq => by cases hlt.symm.trans heq
  refine ⟨KeyMap.keys_eq_of_mem_iff _ hordered hmem, fun key hkey => ?_, fun key hkey => ?_⟩
  · have hcontains : Std.ExtTreeMap.contains (.ofList entries) key = true :=
      Std.ExtTreeMap.contains_iff_mem.mpr ((hmem key).mpr hkey)
    rw [← hkeys] at hkey
    obtain ⟨⟨_, f⟩, hentry, rfl⟩ := List.mem_map.mp hkey
    have hget := Std.ExtTreeMap.getElem?_ofList_of_mem Std.ReflCmp.compare_self hdistinct hentry
    refine ⟨f, hentries _ hentry, hget, ?_, hcontains⟩
    unfold get get?
    rw [hget]
  · have hlacks : key ∉ Std.ExtTreeMap.ofList entries := fun h => hkey ((hmem key).mp h)
    have hget := Std.ExtTreeMap.getElem?_eq_none hlacks
    refine ⟨hget, ?_, Bool.eq_false_iff.mpr fun h => hlacks (Std.ExtTreeMap.contains_iff_mem.mp h)⟩
    unfold get get?
    rw [hget]

section Single

omit [Scalar α]

variable {β : Type} {dict : Dictionary α} {inputs : List (Input β)}
  {outcome : Key → Option (Except (Error α) (Interpolant α))} (h : dict.Serves keys outcome)
  (hcommon : CommonKeys inputs keys)
  (hkeyed : dict.keyed = true ↔ ∃ input ∈ inputs, input.isKeyed = true)

include h hcommon hkeyed

/-- Where nothing is keyed the only interpolant is that of the key without labels. -/
theorem Serves.single?_of_shared (hshared : ∀ input ∈ inputs, input.isKeyed = false) :
    ∃ f, dict.single? = some f ∧ outcome .unit = some (.ok f) := by
  have hnot : ¬ dict.keyed = true := by
    rw [hkeyed]
    rintro ⟨input, hmem, hinput⟩
    cases (hshared input hmem).symm.trans hinput
  obtain ⟨f, hf, hget, -⟩ := h.of_mem .unit (by simp [hcommon.of_shared hshared])
  unfold single?
  rw [if_neg hnot]
  exact ⟨f, hget, hf⟩

theorem Serves.isSome_single?_iff :
    dict.single?.isSome = true ↔ ∀ input ∈ inputs, input.isKeyed = false := by
  constructor
  · intro hsome input hmem
    by_contra hinput
    rw [Bool.not_eq_false] at hinput
    unfold single? at hsome
    rw [if_pos (hkeyed.mpr ⟨input, hmem, hinput⟩)] at hsome
    cases hsome
  · intro hshared
    obtain ⟨f, hf, -⟩ := h.single?_of_shared hcommon hkeyed hshared
    rw [hf]
    rfl

end Single

theorem alone_of_shared (a b : Readings α) (c : Option (Readings α)) (key : Key) :
    alone (.shared a) (.shared b) (c.map .shared) options key =
      some (Interpolant.build a b c options) := by
  cases c <;> rfl

theorem build_eq_of_commonKeys (options : Options α) {keys : Option (List Key)}
    (h : commonKeys (α := α) ((x :: y :: z.toList).filterMap Input.keys?) = .ok keys) :
    build x y z options = (keys.getD [.unit]).mapM (buildEntry x y z options) >>=
      fun entries => .ok ⟨.ofList entries, keys.isSome⟩ := by
  unfold build
  rw [h]
  rfl

theorem build_of_disagree (options : Options α) (h : Disagree (x :: y :: z.toList)) :
    ∃ keys, build x y z options = .error (.keyMismatch keys) := by
  obtain ⟨keys, hkeys⟩ := commonKeys_of_disagree (α := α) h
  unfold build
  rw [hkeys]
  exact ⟨keys, rfl⟩

/-- Inputs that do not disagree make a dictionary of their common keys, or one of these fails. -/
theorem build_of_not_disagree (options : Options α) (h : ¬ Disagree (x :: y :: z.toList)) :
    ∃ keys, CommonKeys (x :: y :: z.toList) keys ∧
      ((∃ dict, build x y z options = .ok dict ∧ dict.Serves keys (alone x y z options) ∧
          (dict.keyed = true ↔ ∃ input ∈ x :: y :: z.toList, input.isKeyed = true)) ∨
        ∃ key cause, FirstFailing keys (alone x y z options) key cause ∧
          build x y z options = .error (.keyBuild key cause)) := by
  obtain ⟨listed, hok, hcommon, hsome⟩ := commonKeys_of_not_disagree (α := α) h
  have halone : ∀ key ∈ listed.getD [.unit], ∃ outcome, alone x y z options key = some outcome :=
    fun key hkey => exists_alone x y z options hcommon hkey
  have hbuild := build_eq_of_commonKeys options hok
  refine ⟨_, hcommon, ?_⟩
  cases hentries : (listed.getD [.unit]).mapM (buildEntry x y z options) with
  | error e =>
    obtain ⟨key, cause, hfirst, rfl⟩ := first_of_mapM hcommon.ordered halone hentries
    rw [hentries] at hbuild
    exact Or.inr ⟨key, cause, hfirst, hbuild⟩
  | ok entries =>
    obtain ⟨hkeys, hall⟩ := entries_of_mapM halone hentries
    rw [hentries] at hbuild
    exact Or.inl ⟨_, hbuild, serves_ofList hcommon.ordered hkeys hall _, hsome⟩

/-- The triple of each common key is complete, so no key is found unknown. -/
theorem build_ne_unknownKey (options : Options α) (key : Key) :
    build x y z options ≠ .error (.unknownKey key) := by
  intro hunknown
  by_cases h : Disagree (x :: y :: z.toList)
  · obtain ⟨keys, hkeys⟩ := build_of_disagree options h
    cases hkeys.symm.trans hunknown
  · obtain ⟨keys, -, ⟨dict, hbuild, -⟩ | ⟨other, cause, -, hbuild⟩⟩ :=
      build_of_not_disagree options h
    · cases hbuild.symm.trans hunknown
    · cases hbuild.symm.trans hunknown

omit [Scalar α] in
theorem get_eq_ok_iff {dict : Dictionary α} {key : Key} {f : Interpolant α} :
    dict.get key = .ok f ↔ dict.get? key = some f := by
  unfold get
  cases dict.get? key <;> simp

/-- An interpolant that a dictionary has is the one built for its key alone. -/
theorem alone_of_get? {dict : Dictionary α} {key : Key} {f : Interpolant α}
    (h : build x y z options = .ok dict) (hget : dict.get? key = some f) :
    alone x y z options key = some (.ok f) := by
  by_cases hdisagree : Disagree (x :: y :: z.toList)
  · obtain ⟨keys, hkeys⟩ := build_of_disagree options hdisagree
    cases hkeys.symm.trans h
  · obtain ⟨keys, -, ⟨dict', hbuild, hserves, -⟩ | ⟨other, cause, -, hbuild⟩⟩ :=
      build_of_not_disagree options hdisagree
    · obtain rfl := Except.ok.inj (hbuild.symm.trans h)
      by_cases hkey : key ∈ keys
      · obtain ⟨f', halone, hget', -⟩ := hserves.of_mem key hkey
        obtain rfl := Option.some.inj (hget'.symm.trans hget)
        exact halone
      · cases (hserves.of_not_mem key hkey).1.symm.trans hget
    · cases hbuild.symm.trans h

end Build

/-- A dictionary is built as the interpolants of its keys are, each of what the inputs hold for it.
Inputs that disagree on their keys make none. Of the others one is made if each key has its
interpolant, and otherwise the first key that has none is reported. -/
theorem build_key_by_key (x y : Input (Readings α)) (z : Option (Input (Readings α)))
    (options : Options α) :
    let inputs := x :: y :: z.toList
    (Disagree inputs → ∃ keys, build x y z options = .error (.keyMismatch keys)) ∧
      (¬ Disagree inputs → ∃ keys, CommonKeys inputs keys ∧
        (∀ key ∈ keys, ∃ outcome, alone x y z options key = some outcome) ∧
        ((∀ key ∈ keys, ∃ f, alone x y z options key = some (.ok f)) →
          ∃ dict, build x y z options = .ok dict ∧ dict.Serves keys (alone x y z options) ∧
            (dict.keyed = true ↔ ∃ input ∈ inputs, input.isKeyed = true) ∧
            (dict.single?.isSome = true ↔ ∀ input ∈ inputs, input.isKeyed = false) ∧
            ∀ a b c, x = .shared a → y = .shared b → z = c.map .shared →
              ∃ f, dict.single? = some f ∧ Interpolant.build a b c options = .ok f) ∧
        ((∃ key ∈ keys, ∃ cause, alone x y z options key = some (.error cause)) →
          ∃ key cause, FirstFailing keys (alone x y z options) key cause ∧
            build x y z options = .error (.keyBuild key cause))) ∧
      ∀ key, build x y z options ≠ .error (.unknownKey key) := by
  intro inputs
  refine ⟨build_of_disagree options, fun hagree => ?_, build_ne_unknownKey options⟩
  obtain ⟨keys, hcommon, hbuilt⟩ := build_of_not_disagree options hagree
  refine ⟨keys, hcommon, fun key hkey => exists_alone x y z options hcommon hkey, ?_⟩
  rcases hbuilt with ⟨dict, hbuild, hserves, hkeyed⟩ | ⟨key, cause, hfirst, hbuild⟩
  · have hsingle := hserves.isSome_single?_iff hcommon hkeyed
    refine ⟨fun _ => ⟨dict, hbuild, hserves, hkeyed, hsingle, ?_⟩, ?_⟩
    · rintro a b c rfl rfl rfl
      have hshared : ∀ input ∈ inputs, input.isKeyed = false := by
        cases c <;> simp [inputs, Input.isKeyed]
      obtain ⟨f, hf, halone⟩ := hserves.single?_of_shared hcommon hkeyed hshared
      rw [alone_of_shared] at halone
      exact ⟨f, hf, Option.some.inj halone⟩
    · rintro ⟨key, hkey, cause, hcause⟩
      obtain ⟨f, hf, -⟩ := hserves.of_mem key hkey
      cases hcause.symm.trans hf
  · refine ⟨fun hall => ?_, fun _ => ⟨key, cause, hfirst, hbuild⟩⟩
    obtain ⟨f, hf⟩ := hall key hfirst.mem
    cases hfirst.failing.symm.trans hf

end DesignChart.Dictionary
