import DesignChart.Json.Library
import DesignChart.Proofs.Json.Members
import DesignChart.Proofs.Json.Writing

/-!
# What is documented of a library

Strict JSON is read as the value it writes, and the number written for a finite double is read back
as the same double. A structure is read of the members with the names of its fields, or of a list in
their order; the fields left out take their defaults, other members are passed over, and none of the
fields may be repeated. An enumeration is read of its tag and its content. If the tag comes first,
the content is read as the variant right away, and otherwise it is kept in a buffer until the
variant is known.

From this follows what is read of an object with given members, in whatever order they stand.
-/

namespace DesignChart.Json

variable {σ ε : Type}

namespace Library

/-- The library does what is documented of it. -/
structure Lawful (library : Library) : Prop where
  /-- Texts are read by the grammar of JSON, with blanks wherever it allows them. -/
  parse?_eq_some_iff : ∀ text value, library.parse? text = some value ↔ Writes text value
  writes_render : ∀ value, Writes (library.render value) value
  float_of_write : ∀ v : Float, v.isFinite = true →
    library.float.read? (library.float.write v) = some v
  /-- A double is read of what has been kept in a buffer as it is read right away. -/
  float_of_buffer : ∀ json, library.buffered? json = library.float.read? json
  natural_of_write : ∀ n < UInt64.size, library.natural.read? (library.natural.write n) = some n
  natural_of_null : library.natural.read? .null = none
  option_of_null : ∀ {β : Type} (coding : Coding β),
    (library.option coding).read? .null = some none
  option_of_value : ∀ {β : Type} (coding : Coding β) json, json ≠ .null →
    (library.option coding).read? json = (coding.read? json).map some
  option_write : ∀ {β : Type} (coding : Coding β) value,
    (library.option coding).write value = value.elim .null coding.write
  /-- Members of other names are passed over. -/
  record_of_object : ∀ {σ : Type} (record : Record σ) members,
    Distinct (record.fields.map (·.name)) members →
      (library.record record).read? (.object members) =
        record.assemble? fun name => members.lookup (some name)
  record_of_indistinct : ∀ {σ : Type} (record : Record σ) members,
    ¬ Distinct (record.fields.map (·.name)) members →
      (library.record record).read? (.object members) = none
  /-- The elements of a list are the first fields. -/
  record_of_list : ∀ {σ : Type} (record : Record σ) elements,
    elements.length ≤ record.fields.length → (library.record record).read? (.array elements) =
      record.assemble? fun name => ((record.fields.map (·.name)).zip elements).lookup name
  record_write : ∀ {σ : Type} (record : Record σ) value, (library.record record).write value =
    .ofMembers (record.fields.map fun field => (field.name, field.stored value))
  enumeration_of_tag : ∀ {ε : Type} (enumeration : Enumeration ε) members,
    Distinct [enumeration.tag, enumeration.content] members → ∀ tag,
      enumeration.parts members = [.tag tag] →
        (library.enumeration enumeration).read? (.object members) =
          enumeration.value? library.float.read? tag none
  enumeration_of_tag_first : ∀ {ε : Type} (enumeration : Enumeration ε) members,
    Distinct [enumeration.tag, enumeration.content] members → ∀ tag content,
      enumeration.parts members = [.tag tag, .content content] →
        (library.enumeration enumeration).read? (.object members) =
          enumeration.value? library.float.read? tag (some content)
  enumeration_of_content_first : ∀ {ε : Type} (enumeration : Enumeration ε) members,
    Distinct [enumeration.tag, enumeration.content] members → ∀ tag content,
      enumeration.parts members = [.content content, .tag tag] →
        (library.enumeration enumeration).read? (.object members) =
          enumeration.value? library.buffered? tag (some content)
  enumeration_of_untagged : ∀ {ε : Type} (enumeration : Enumeration ε) members,
    (∀ tag, .tag tag ∉ enumeration.parts members) →
      (library.enumeration enumeration).read? (.object members) = none
  enumeration_of_indistinct : ∀ {ε : Type} (enumeration : Enumeration ε) members,
    ¬ Distinct [enumeration.tag, enumeration.content] members →
      (library.enumeration enumeration).read? (.object members) = none
  /-- In a list the variant goes by its name. -/
  enumeration_of_list : ∀ {ε : Type} (enumeration : Enumeration ε) name content,
    (library.enumeration enumeration).read? (.array [.string (some name), content]) =
      (enumeration.variant? name).bind (·.ofContent? library.float.read? content)
  enumeration_of_unnamed_list : ∀ {ε : Type} (enumeration : Enumeration ε) tag content,
    (∀ name, tag ≠ .string (some name)) →
      (library.enumeration enumeration).read? (.array [tag, content]) = none
  enumeration_write : ∀ {ε : Type} (enumeration : Enumeration ε) value,
    (library.enumeration enumeration).write value =
      .ofMembers (enumeration.members library.float.write value)

end Library

namespace Enumeration

variable {enumeration : Enumeration ε} {text : Text} {json : Json}
  {rest members : List (Text × Json)}

theorem parts_cons_tag : enumeration.parts ((some enumeration.tag, json) :: rest) =
    .tag json :: enumeration.parts rest :=
  List.filterMap_cons_some (if_pos rfl)

theorem parts_cons_content (hne : enumeration.tag ≠ enumeration.content) :
    enumeration.parts ((some enumeration.content, json) :: rest) =
      .content json :: enumeration.parts rest :=
  List.filterMap_cons_some ((if_neg (by simpa using hne.symm)).trans (if_pos rfl))

theorem parts_cons_other (htag : text ≠ some enumeration.tag)
    (hcontent : text ≠ some enumeration.content) :
    enumeration.parts ((text, json) :: rest) = enumeration.parts rest :=
  List.filterMap_cons_none ((if_neg htag).trans (if_neg hcontent))

/-- The parts of an object are its tag and its content, in either order. -/
theorem parts_eq (hne : enumeration.tag ≠ enumeration.content)
    (htag : ¬ Repeats members enumeration.tag) (hcontent : ¬ Repeats members enumeration.content) :
    let tag := (members.lookup (some enumeration.tag)).toList.map Part.tag
    let content := (members.lookup (some enumeration.content)).toList.map Part.content
    enumeration.parts members = tag ++ content ∨ enumeration.parts members = content ++ tag := by
  dsimp only
  induction members with
  | nil => exact .inl rfl
  | cons member rest ih =>
    obtain ⟨text, json⟩ := member
    obtain ⟨htag, hnotag⟩ := lookup_of_not_repeats htag
    obtain ⟨hcontent, hnocontent⟩ := lookup_of_not_repeats hcontent
    have hrest := ih htag hcontent
    by_cases his : text = some enumeration.tag
    · -- nothing else is a tag, so that the rest is the content
      subst his
      rw [hnotag rfl] at hrest
      rw [parts_cons_tag, List.lookup_cons_self, lookup_cons_of_ne (by simpa using hne)]
      exact .inl (congrArg (Part.tag json :: ·) (hrest.elim id fun h => by simpa using h))
    by_cases his' : text = some enumeration.content
    · subst his'
      rw [hnocontent rfl] at hrest
      rw [parts_cons_content hne, List.lookup_cons_self,
        lookup_cons_of_ne (by simpa using hne.symm)]
      exact .inr (congrArg (Part.content json :: ·) (hrest.elim (fun h => by simpa using h) id))
    · rwa [parts_cons_other his his', lookup_cons_of_ne his, lookup_cons_of_ne his']

/-- The name of a variant may stand by itself or within an object. -/
theorem value?_of_tagName? {read? : Json → Option Float} {tag : Json} {name : String}
    (h : tagName? tag = some name) (content : Option Json) :
    enumeration.value? read? tag content = (enumeration.variant? name).bind fun variant =>
      content.elim variant.alone? (variant.ofContent? read?) := by
  unfold value? tagged?
  rw [h, Option.bind_some]

end Enumeration

/-- A content that is left out is read like null. -/
theorem Variant.ofContent?_getD {variant : Variant ε} {read? : Json → Option Float}
    {content : Option Json} {value : ε}
    (h : content.elim variant.alone? (variant.ofContent? read?) = some value) :
    variant.ofContent? read? (content.getD .null) = some value := by
  cases content with
  | some content => exact h
  | none =>
    cases variant with
    | unit name value is => exact h
    | double name make get? => cases h

namespace Library.Lawful

variable {library : Library} (h : library.Lawful)
include h

/-- All such libraries parse alike. -/
theorem parse?_eq (text : String) : library.parse? text = Json.parse? text := by
  refine Option.ext fun value => ?_
  rw [h.parse?_eq_some_iff, Json.parse?_eq_some_iff]

/-- What an object has to hold to be read as a structure. -/
theorem record_object_eq_some_iff {record : Record σ} {members : List (Text × Json)} {value : σ} :
    (library.record record).read? (.object members) = some value ↔
      Distinct (record.fields.map (·.name)) members ∧
        record.assemble? (fun name => members.lookup (some name)) = some value := by
  by_cases hdistinct : Distinct (record.fields.map (·.name)) members
  · rw [h.record_of_object record members hdistinct]
    exact (and_iff_right hdistinct).symm
  · rw [h.record_of_indistinct record members hdistinct]
    exact iff_of_false (Option.some_ne_none value).symm fun hall => hdistinct hall.1

/-- An enumeration is read of its tag and its content, whichever comes first: what is kept in a
buffer is read like anything else. -/
theorem enumeration_object {enumeration : Enumeration ε}
    (hne : enumeration.tag ≠ enumeration.content) {members : List (Text × Json)}
    (hdistinct : Distinct [enumeration.tag, enumeration.content] members) :
    (library.enumeration enumeration).read? (.object members) =
      (members.lookup (some enumeration.tag)).bind fun tag =>
        enumeration.value? library.float.read? tag (members.lookup (some enumeration.content)) := by
  have hbuffered : library.buffered? = library.float.read? := funext h.float_of_buffer
  have htag := hdistinct.2 _ List.mem_cons_self
  have hcontent := hdistinct.2 _ (List.mem_cons_of_mem _ List.mem_cons_self)
  have hparts := Enumeration.parts_eq hne htag hcontent
  cases hlookup : members.lookup (some enumeration.tag) with
  | none =>
    refine h.enumeration_of_untagged enumeration members fun tag htag => ?_
    rw [hlookup] at hparts
    rcases hparts with hparts | hparts <;> simp [hparts] at htag
  | some tag =>
    cases hlookup' : members.lookup (some enumeration.content) with
    | none =>
      rw [hlookup, hlookup'] at hparts
      exact h.enumeration_of_tag enumeration members hdistinct tag (hparts.elim id id)
    | some content =>
      rw [hlookup, hlookup'] at hparts
      rcases hparts with hparts | hparts
      · exact h.enumeration_of_tag_first enumeration members hdistinct tag content hparts
      · rw [h.enumeration_of_content_first enumeration members hdistinct tag content hparts,
          hbuffered]
        rfl

/-- What an object has to hold to be read as an enumeration. -/
theorem enumeration_object_eq_some_iff {enumeration : Enumeration ε}
    (hne : enumeration.tag ≠ enumeration.content) {members : List (Text × Json)} {value : ε} :
    (library.enumeration enumeration).read? (.object members) = some value ↔
      ∃ tag content, member? enumeration.tag members = some tag ∧
        member? enumeration.content members = some content ∧
          (tag.bind fun tag => enumeration.value? library.float.read? tag content) =
            some value := by
  rw [exists_member?_iff]
  by_cases hdistinct : Distinct [enumeration.tag, enumeration.content] members
  · rw [h.enumeration_object hne hdistinct]
    exact (and_iff_right hdistinct).symm
  · rw [h.enumeration_of_indistinct enumeration members hdistinct]
    exact iff_of_false (Option.some_ne_none value).symm fun hall => hdistinct hall.1

/-- What is read of an object is read of the list of its tag and its content as well. -/
theorem enumeration_list_of_value? {enumeration : Enumeration ε} {tag : Json} {name : String}
    (hname : tagName? tag = some name) {content : Option Json} {value : ε}
    (hvalue : enumeration.value? library.float.read? tag content = some value) :
    (library.enumeration enumeration).read?
      (.array [.string (some name), content.getD .null]) = some value := by
  rw [Enumeration.value?_of_tagName? hname, Option.bind_eq_some_iff] at hvalue
  obtain ⟨variant, hvariant, hvalue⟩ := hvalue
  rw [h.enumeration_of_list, hvariant]
  exact Variant.ofContent?_getD hvalue

end Library.Lawful

end DesignChart.Json
