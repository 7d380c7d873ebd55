import DesignChart.Json

/-!
What is asked of a library that stores values as JSON.

The library reads and writes texts, doubles, natural numbers and values that may be missing. It does
the same for structures and enumerations, of which it is told how they are declared: the fields of a
structure with the value whose fields stand for those left out, and the variants of an enumeration
with the names of two members, one for the variant and one for its content. How it goes about this
is left open here.
-/

namespace DesignChart.Json

/-- How the values of a type are stored. -/
structure Coding (β : Type) where
  read? : Json → Option β
  write : β → Json

/-- A field of the structure `σ`. -/
structure Field (σ : Type) where
  name : String
  /-- The structure with the field as it is stored. -/
  store? : Json → σ → Option σ
  /-- What is stored for the field. -/
  stored : σ → Json

/-- A field with values of one type. -/
def Field.of {σ β : Type} (name : String) (coding : Coding β) (get : σ → β) (set : β → σ → σ) :
    Field σ where
  name := name
  store? json value := (coding.read? json).map (set · value)
  stored value := coding.write (get value)

/-- A structure as it is declared. -/
structure Record (σ : Type) where
  /-- The fields, in order. -/
  fields : List (Field σ)
  /-- The value whose fields stand for those that are left out. -/
  default : σ

/-- The structure with the fields that are found under their names. -/
def Record.assemble? {σ : Type} (record : Record σ) (find : String → Option Json) : Option σ :=
  record.fields.foldlM
    (fun value field => (find field.name).elim (some value) (field.store? · value)) record.default

/-- A variant of the enumeration `ε`: a single value, or a value for each double. -/
inductive Variant (ε : Type)
  | unit (name : String) (value : ε) (is : ε → Bool)
  | double (name : String) (make : Float → ε) (get? : ε → Option Float)

namespace Variant

variable {ε : Type}

def name : Variant ε → String
  | unit name _ _ => name
  | double name _ _ => name

/-- The value with some content, of which a single value has none but null. -/
def ofContent? (read? : Json → Option Float) : Variant ε → Json → Option ε
  | unit _ value _, .null => some value
  | unit _ _ _, _ => none
  | double _ make _, json => (read? json).map make

/-- The value without content. -/
def alone? : Variant ε → Option ε
  | unit _ value _ => some value
  | double _ _ _ => none

/-- What is stored as content, if the value is of this variant. -/
def content? (write : Float → Json) : Variant ε → ε → Option (Option Json)
  | unit _ _ is, value => if is value then some none else none
  | double _ _ get?, value => (get? value).map fun v => some (write v)

end Variant

/-- An enumeration as it is declared. -/
structure Enumeration (ε : Type) where
  /-- The member that tells the variant. -/
  tag : String
  /-- The member that holds the content. -/
  content : String
  variants : List (Variant ε)

/-- The name that a tag gives, by itself or with a null as all that an object holds. -/
def tagName? : Json → Option String
  | .string text => text
  | .object [(text, .null)] => text
  | _ => none

/-- What an object holds of an enumeration. -/
inductive Part
  | tag (json : Json)
  | content (json : Json)

namespace Enumeration

variable {ε : Type} (enumeration : Enumeration ε)

def variant? (name : String) : Option (Variant ε) :=
  enumeration.variants.find? (·.name = name)

def tagged? (tag : Json) : Option (Variant ε) := (tagName? tag).bind enumeration.variant?

/-- The value of a tag and its content, if it has any. -/
def value? (read? : Json → Option Float) (tag : Json) (content : Option Json) : Option ε :=
  (enumeration.tagged? tag).bind fun variant =>
    content.elim variant.alone? (variant.ofContent? read?)

/-- The tags and contents among the members of an object, in the order in which they stand. -/
def parts (members : List (Text × Json)) : List Part :=
  members.filterMap fun (name, json) =>
    if name = some enumeration.tag then some (.tag json)
    else if name = some enumeration.content then some (.content json)
    else none

/-- The members of the object that a value is stored as. -/
def members (write : Float → Json) (value : ε) : List (String × Json) :=
  (enumeration.variants.findSome? fun variant =>
    (variant.content? write value).map fun content =>
      (enumeration.tag, .string (some variant.name)) ::
        (content.map (enumeration.content, ·)).toList).getD []

end Enumeration

/-- A library that stores values as JSON. -/
structure Library where
  /-- The value that a text stands for. -/
  parse? : String → Option Json
  /-- A value as text. -/
  render : Json → String
  float : Coding Float
  /-- The double that is read of a value which has been kept in a buffer meanwhile. -/
  buffered? : Json → Option Float
  /-- Natural numbers of one machine word. -/
  natural : Coding Nat
  /-- Values that may be missing. -/
  option : {β : Type} → Coding β → Coding (Option β)
  record : {σ : Type} → Record σ → Coding σ
  enumeration : {ε : Type} → Enumeration ε → Coding ε

end DesignChart.Json
