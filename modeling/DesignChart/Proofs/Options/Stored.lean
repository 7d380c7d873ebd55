import DesignChart.Options.Json
import DesignChart.Proofs.Json.Plain

/-!
# Stored settings are read back however they are stored

Settings and the policy in them are read off what is held under their names, or off the list of the
same values. Each change to the way they are stored leaves what is read as it is, and so does any
number of changes; a known member that is repeated is refused. Blanks between tokens do not matter,
and a finite double is read back from its number, so that settings are read back from their text.
This holds of every library that does what is documented.
-/

namespace DesignChart

open Json (Holds Library Repeats tagName?)

namespace RangePolicy

/-- One change to the way a policy is stored: its members in another order, a member of another
name besides, or the list in place of the object. The list holds the name of the policy. -/
inductive Restored : Json → Json → Prop
  | reordered {members members' : List (Json.Text × Json)} (h : members.Perm members') :
      Restored (.object members) (.object members')
  | unknown {before after : List (Json.Text × Json)} {name : String} (value : Json)
      (hpolicy : name ≠ "policy") (hvalue : name ≠ "value") :
      Restored (.object (before ++ after)) (.object (before ++ (some name, value) :: after))
  | listed {members : List (Json.Text × Json)} {policy : Json} {name : String}
      {value : Option Json} (hpolicy : Holds members "policy" (some policy))
      (hname : tagName? policy = some name) (hvalue : Holds members "value" value) :
      Restored (.object members) (.array [.string (some name), value.getD .null])

/-- A known member of a policy is repeated. -/
inductive RepeatsMember : Json → Prop
  | policy {members : List (Json.Text × Json)} (h : Repeats members "policy") :
      RepeatsMember (.object members)
  | value {members : List (Json.Text × Json)} (h : Repeats members "value") :
      RepeatsMember (.object members)

/-- What is stored for a policy, with doubles written by `write`. -/
def stored (write : Float → Json) : RangePolicy Float → Json
  | raise => .ofMembers [("policy", .string (some "raise"))]
  | fill value => .ofMembers [("policy", .string (some "fill")), ("value", write value)]
  | clamp => .ofMembers [("policy", .string (some "clamp"))]

variable {library : Library} (h : library.Lawful) {json json' : Json} {policy : RangePolicy Float}
include h

/-- What an object has to hold to be read as a policy. -/
theorem read?_object_eq_some_iff {members : List (Json.Text × Json)} :
    (coding library).read? (.object members) = some policy ↔
      ∃ tag value, Json.member? "policy" members = some tag ∧
        Json.member? "value" members = some value ∧
          (tag.bind fun tag => declaration.value? library.float.read? tag value) = some policy :=
  h.enumeration_object_eq_some_iff (by decide)

theorem read?_restored (hread : (coding library).read? json = some policy)
    (hstep : Restored json json') : (coding library).read? json' = some policy := by
  cases hstep with
  | reordered hperm =>
    rw [read?_object_eq_some_iff h] at hread ⊢
    rwa [Json.member?_perm hperm.symm, Json.member?_perm hperm.symm]
  | unknown value hpolicy hvalue =>
    rw [read?_object_eq_some_iff h] at hread ⊢
    rwa [Json.member?_insert hvalue, Json.member?_insert hpolicy]
  | @listed members tag name value hpolicy hname hvalue =>
    obtain ⟨found, found', hfound, hfound', hread⟩ := (read?_object_eq_some_iff h).mp hread
    obtain rfl := Json.eq_of_holds hfound hpolicy
    obtain rfl := Json.eq_of_holds hfound' hvalue
    exact h.enumeration_list_of_value? hname hread

theorem read?_of_repeatsMember (hrepeats : RepeatsMember json) :
    (coding library).read? json = none := by
  cases hrepeats with
  | policy hrepeats =>
    refine h.enumeration_of_indistinct declaration _ fun hdistinct => ?_
    exact hdistinct.2 _ List.mem_cons_self hrepeats
  | value hrepeats =>
    refine h.enumeration_of_indistinct declaration _ fun hdistinct => ?_
    exact hdistinct.2 _ (List.mem_cons_of_mem _ List.mem_cons_self) hrepeats

/-- The members of a policy are those that are declared. -/
theorem write_eq_stored (policy : RangePolicy Float) :
    (coding library).write policy = policy.stored library.float.write := by
  refine (h.enumeration_write declaration policy).trans ?_
  cases policy <;> rfl

theorem read?_stored (hfinite : ∀ value ∈ policy.fillValue?, value.isFinite = true) :
    (coding library).read? (policy.stored library.float.write) = some policy := by
  cases policy with
  | raise => exact (read?_object_eq_some_iff h).mpr ⟨_, _, rfl, rfl, rfl⟩
  | clamp => exact (read?_object_eq_some_iff h).mpr ⟨_, _, rfl, rfl, rfl⟩
  | fill value =>
    refine (read?_object_eq_some_iff h).mpr ⟨_, _, rfl, rfl, ?_⟩
    change (library.float.read? (library.float.write value)).map fill = _
    rw [h.float_of_write value (hfinite value rfl)]
    rfl

end RangePolicy

namespace Options

/-- One change to the way settings are stored: the members in another order, a member of another
name besides, a dimension of null left out, the list in place of the object, or a change to the way
the policy in them is stored. -/
inductive Restored : Json → Json → Prop
  | reordered {members members' : List (Json.Text × Json)} (h : members.Perm members') :
      Restored (.object members) (.object members')
  | unknown {before after : List (Json.Text × Json)} {name : String} (value : Json)
      (haxis : name ≠ "axis") (hbounds : name ≠ "bounds") :
      Restored (.object (before ++ after)) (.object (before ++ (some name, value) :: after))
  | omitted {before after : List (Json.Text × Json)} :
      Restored (.object (before ++ (some "axis", .null) :: after)) (.object (before ++ after))
  | listed {members : List (Json.Text × Json)} {axis bounds : Option Json}
      (haxis : Holds members "axis" axis) (hbounds : Holds members "bounds" bounds) :
      Restored (.object members) (.array (axis.getD .null :: bounds.toList))
  | bounds {before after : List (Json.Text × Json)} {bounds bounds' : Json}
      (h : RangePolicy.Restored bounds bounds') :
      Restored (.object (before ++ (some "bounds", bounds) :: after))
        (.object (before ++ (some "bounds", bounds') :: after))
  | listedBounds {axis bounds bounds' : Json} (h : RangePolicy.Restored bounds bounds') :
      Restored (.array [axis, bounds]) (.array [axis, bounds'])

/-- The policy in stored settings. -/
inductive HoldsBounds : Json → Json → Prop
  | member {members : List (Json.Text × Json)} {bounds : Json}
      (h : Holds members "bounds" (some bounds)) : HoldsBounds (.object members) bounds
  | listed {axis bounds : Json} : HoldsBounds (.array [axis, bounds]) bounds

/-- A known member of the settings is repeated, or of the policy in them. -/
inductive RepeatsMember : Json → Prop
  | axis {members : List (Json.Text × Json)} (h : Repeats members "axis") :
      RepeatsMember (.object members)
  | bounds {members : List (Json.Text × Json)} (h : Repeats members "bounds") :
      RepeatsMember (.object members)
  | within {json bounds : Json} (hbounds : HoldsBounds json bounds)
      (h : RangePolicy.RepeatsMember bounds) : RepeatsMember json

/-- Settings that can be stored: the dimension is a machine word and what is filled in is finite. -/
structure Storable (options : Options Float) : Prop where
  axis_lt : ∀ axis ∈ options.axis, axis < UInt64.size
  isFinite : ∀ value ∈ options.bounds.fillValue?, value.isFinite = true

/-- What is stored for settings, with numbers written as `library` writes them. -/
def stored (library : Library) (options : Options Float) : Json :=
  .ofMembers [("axis", options.axis.elim .null library.natural.write),
    ("bounds", options.bounds.stored library.float.write)]

/-- Each part of the settings is read by itself, and takes its default where it is left out. -/
@[mk_iff]
structure ReadOf (library : Library) (axis bounds : Option Json) (options : Options Float) :
    Prop where
  axis : axis.elim (some none) (library.option library.natural).read? = some options.axis
  bounds : bounds.elim (some .raise) (RangePolicy.coding library).read? = some options.bounds

variable {library : Library} {json json' : Json} {options : Options Float}

theorem assemble?_eq_some_iff {find : String → Option Json} :
    (declaration library).assemble? find = some options ↔
      ReadOf library (find "axis") (find "bounds") options := by
  obtain ⟨axisRead, boundsRead⟩ := options
  simp only [Json.Record.assemble?, declaration, Json.Field.of, List.foldlM_cons, List.foldlM_nil,
    readOf_iff]
  cases find "axis" <;> cases find "bounds" <;> simp [Option.bind_eq_some_iff, and_comm]

section Lawful

variable (h : library.Lawful)
include h

/-- What an object has to hold to be read as settings. -/
theorem read?_object_eq_some_iff {members : List (Json.Text × Json)} :
    (coding library).read? (.object members) = some options ↔
      ∃ axis bounds, Json.member? "axis" members = some axis ∧
        Json.member? "bounds" members = some bounds ∧ ReadOf library axis bounds options := by
  rw [Json.exists_member?_iff]
  refine h.record_object_eq_some_iff.trans (and_congr_right' ?_)
  exact assemble?_eq_some_iff

/-- What a list has to hold to be read as settings. -/
theorem read?_list_eq_some_iff (axis : Json) (bounds : Option Json) :
    (coding library).read? (.array (axis :: bounds.toList)) = some options ↔
      ReadOf library (some axis) bounds options := by
  have hlength : (axis :: bounds.toList).length ≤ (declaration library).fields.length := by
    cases bounds <;> simp [declaration]
  have hread := h.record_of_list (declaration library) _ hlength
  rw [coding, hread, assemble?_eq_some_iff]
  cases bounds <;> rfl

/-- A dimension that is left out is read like null. -/
theorem ReadOf.getD {axis bounds : Option Json} (hread : ReadOf library axis bounds options) :
    ReadOf library (some (axis.getD .null)) bounds options := by
  refine ⟨?_, hread.bounds⟩
  cases axis with
  | none => exact (h.option_of_null _).trans hread.axis
  | some axis => exact hread.axis

/-- A policy that is stored otherwise is the same part of the settings. -/
theorem ReadOf.restored {axis : Option Json} {bounds bounds' : Json}
    (hread : ReadOf library axis (some bounds) options)
    (hstep : RangePolicy.Restored bounds bounds') : ReadOf library axis (some bounds') options :=
  ⟨hread.axis, RangePolicy.read?_restored h hread.bounds hstep⟩

theorem read?_restored (hread : (coding library).read? json = some options)
    (hstep : Restored json json') : (coding library).read? json' = some options := by
  cases hstep with
  | reordered hperm =>
    rw [read?_object_eq_some_iff h] at hread ⊢
    rwa [Json.member?_perm hperm.symm, Json.member?_perm hperm.symm]
  | unknown value haxis hbounds =>
    rw [read?_object_eq_some_iff h] at hread ⊢
    rwa [Json.member?_insert haxis, Json.member?_insert hbounds]
  | omitted =>
    obtain ⟨axis, bounds, haxis, hbounds, hread⟩ := (read?_object_eq_some_iff h).mp hread
    rw [Json.eq_of_holds haxis Json.holds_insert] at hread
    rw [Json.member?_insert (by decide)] at hbounds
    -- null is read like the default
    have hnone : ReadOf library none bounds options :=
      ⟨(h.option_of_null _).symm.trans hread.axis, hread.bounds⟩
    exact (read?_object_eq_some_iff h).mpr
      ⟨none, bounds, Json.member?_omit haxis, hbounds, hnone⟩
  | @listed members axis bounds haxis hbounds =>
    obtain ⟨axis', bounds', haxis', hbounds', hread⟩ := (read?_object_eq_some_iff h).mp hread
    rw [Json.eq_of_holds haxis' haxis, Json.eq_of_holds hbounds' hbounds] at hread
    exact (read?_list_eq_some_iff h _ bounds).mpr (hread.getD h)
  | bounds hbounds =>
    obtain ⟨axis, bounds, haxis, hfound, hread⟩ := (read?_object_eq_some_iff h).mp hread
    rw [Json.eq_of_holds hfound Json.holds_insert] at hread
    rw [Json.member?_swap (by decide)] at haxis
    exact (read?_object_eq_some_iff h).mpr
      ⟨axis, _, haxis, Json.member?_replace hfound _, hread.restored h hbounds⟩
  | @listedBounds axis bounds bounds' hbounds =>
    have hparts := (read?_list_eq_some_iff h axis (some bounds)).mp hread
    exact (read?_list_eq_some_iff h axis (some bounds')).mpr (hparts.restored h hbounds)

/-- Settings are refused with the policy in them. -/
theorem read?_of_holdsBounds {bounds : Json} (hbounds : HoldsBounds json bounds)
    (hrefused : (RangePolicy.coding library).read? bounds = none) :
    (coding library).read? json = none := by
  have hpart (axis : Option Json) (options : Options Float) :
      ¬ ReadOf library axis (some bounds) options := by
    intro hread
    have hpolicy := hread.bounds
    rw [Option.elim_some, hrefused] at hpolicy
    cases hpolicy
  rw [Option.eq_none_iff_forall_ne_some]
  intro options hread
  cases hbounds with
  | member hbounds =>
    obtain ⟨axis, found, -, hfound, hread⟩ := (read?_object_eq_some_iff h).mp hread
    rw [Json.eq_of_holds hfound hbounds] at hread
    exact hpart axis options hread
  | @listed axis =>
    exact hpart _ options ((read?_list_eq_some_iff h axis (some bounds)).mp hread)

theorem read?_of_repeatsMember (hrepeats : RepeatsMember json) :
    (coding library).read? json = none := by
  cases hrepeats with
  | axis hrepeats =>
    refine h.record_of_indistinct (declaration library) _ fun hdistinct => ?_
    exact hdistinct.2 _ List.mem_cons_self hrepeats
  | bounds hrepeats =>
    refine h.record_of_indistinct (declaration library) _ fun hdistinct => ?_
    exact hdistinct.2 _ (List.mem_cons_of_mem _ List.mem_cons_self) hrepeats
  | within hbounds hrepeats =>
    exact read?_of_holdsBounds h hbounds (RangePolicy.read?_of_repeatsMember h hrepeats)

/-- However often it is changed how settings are stored, they are the same. -/
theorem read?_run (hread : (coding library).read? json = some options)
    (hsteps : Relation.ReflTransGen Restored json json') :
    (coding library).read? json' = some options := by
  induction hsteps with
  | refl => exact hread
  | tail _ hstep ih => exact read?_restored h ih hstep

/-- The members of settings are those that are declared. -/
theorem write_eq_stored (options : Options Float) :
    (coding library).write options = options.stored library := by
  refine (h.record_write (declaration library) options).trans ?_
  have haxis := h.option_write library.natural options.axis
  have hbounds := RangePolicy.write_eq_stored h options.bounds
  change Json.ofMembers [("axis", (library.option library.natural).write options.axis),
    ("bounds", (RangePolicy.coding library).write options.bounds)] = _
  rw [haxis, hbounds]
  rfl

/-- What is stored for settings is read back as them. -/
theorem read?_stored (hstorable : options.Storable) :
    (coding library).read? (options.stored library) = some options := by
  have haxis : (library.option library.natural).read?
      (options.axis.elim .null library.natural.write) = some options.axis := by
    cases hgiven : options.axis with
    | none => exact h.option_of_null _
    | some axis =>
      have hback := h.natural_of_write axis (hstorable.axis_lt axis hgiven)
      have hnull : library.natural.write axis ≠ .null := by
        intro hnull
        rw [hnull, h.natural_of_null] at hback
        cases hback
      rw [Option.elim_some, h.option_of_value _ _ hnull, hback]
      rfl
  have hbounds := RangePolicy.read?_stored h hstorable.isFinite
  exact (read?_object_eq_some_iff h).mpr ⟨_, _, rfl, rfl, haxis, hbounds⟩

theorem parse?_of_writes {text : String} (htext : Json.Writes text json) :
    parse? library text = (coding library).read? json := by
  unfold parse?
  rw [(h.parse?_eq_some_iff text json).mpr htext, Option.bind_some]

/-- A text is read as the settings that its value stores. -/
theorem parse?_eq_some_iff {text : String} : parse? library text = some options ↔
    ∃ json, Json.Writes text json ∧ (coding library).read? json = some options := by
  unfold parse?
  rw [Option.bind_eq_some_iff]
  exact exists_congr fun json => and_congr_left' (h.parse?_eq_some_iff text json)

end Lawful

end Options

end DesignChart
