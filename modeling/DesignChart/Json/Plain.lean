import DesignChart.Decimal.Shortest
import DesignChart.Json.Library
import DesignChart.Json.Reader

/-!
A plain library that stores values as JSON, to run with.

Numbers are read as the nearest double and written in their shortest decimals. Others may round or
write them otherwise: what is proved of stored values is proved of every library that keeps to what
is documented, of which this is one.
-/

namespace DesignChart.Json

namespace Number

/-- The last digits of a natural number, as many as are asked for. -/
def lastDigits : Nat → Nat → List (Fin 10)
  | 0, _ => []
  | count + 1, n => lastDigits count (n / 10) ++ [⟨n % 10, Nat.mod_lt n (by decide)⟩]

/-- A decimal with so many digits after the point. -/
def withPlaces (d : Decimal) (places : Nat) : Number where
  negative := d.negative
  whole := d.digits / Nat.pow 10 places
  fraction := lastDigits places d.digits
  exponent := if d.exponent + places = 0 then none else some (d.exponent + places)

/-- The number of digits after the point: as many as save an exponent from `10 ^ -5` on and below
`10 ^ 16`, which are none for a whole number, and all digits but the first elsewhere. -/
def places (d : Decimal) : Nat :=
  if -5 ≤ d.leadingExponent && d.leadingExponent < 16 then (-d.exponent).toNat
  else Decimal.digitCount d.digits - 1

/-- A finite double in its shortest decimal. -/
def ofFloat (v : Float) : Number := withPlaces (.shortest v) (places (.shortest v))

/-- The nearest double, which has to be finite. -/
def toFloat? (n : Number) : Option Float :=
  let v := n.toDecimal.toFloat
  if v.isFinite then some v else none

end Number

namespace Library

/-- Numbers that are not too large. -/
def readFloat? : Json → Option Float
  | .number n => n.toFloat?
  | _ => none

/-- Whole numbers in plain digits, of one machine word. -/
def readNatural? : Json → Option Nat
  | .number n => n.toNat?.filter (· < UInt64.size)
  | _ => none

/-- Null for a missing value. -/
def readOption? {β : Type} (coding : Coding β) : Json → Option (Option β)
  | .null => some none
  | json => (coding.read? json).map some

/-- All names are texts, and none of the given ones stands twice. -/
def distinct (names : List String) (members : List (Text × Json)) : Bool :=
  members.all (·.1.isSome) && names.all fun name => members.countP (·.1 = some name) < 2

/-- An object with fields in any order, or the list of the first fields. -/
def readRecord? {σ : Type} (record : Record σ) : Json → Option σ
  | .object members =>
    if distinct (record.fields.map (·.name)) members then
      record.assemble? fun name => members.lookup (some name)
    else
      none
  | .array elements =>
    if elements.length ≤ record.fields.length then
      record.assemble? fun name => ((record.fields.map (·.name)).zip elements).lookup name
    else
      none
  | _ => none

/-- The value of a tag and its content, whichever comes first. -/
def ofParts? {ε : Type} (enumeration : Enumeration ε) : List Part → Option ε
  | [.tag tag] => enumeration.value? readFloat? tag none
  | [.tag tag, .content content] | [.content content, .tag tag] =>
    enumeration.value? readFloat? tag (some content)
  | _ => none

/-- An object with a tag and its content, or the list of a name and the content. -/
def readEnumeration? {ε : Type} (enumeration : Enumeration ε) : Json → Option ε
  | .object members =>
    if distinct [enumeration.tag, enumeration.content] members then
      ofParts? enumeration (enumeration.parts members)
    else
      none
  | .array [.string (some name), content] =>
    (enumeration.variant? name).bind (·.ofContent? readFloat? content)
  | _ => none

def plain : Library where
  parse? := Json.parse?
  render := Json.render
  float := ⟨readFloat?, fun v => .number (.ofFloat v)⟩
  buffered? := readFloat?
  natural := ⟨readNatural?, fun n => .number (.ofNat n)⟩
  option coding := ⟨readOption? coding, fun value => value.elim .null coding.write⟩
  record record := ⟨readRecord? record, fun value =>
    .ofMembers (record.fields.map fun field => (field.name, field.stored value))⟩
  enumeration enumeration := ⟨readEnumeration? enumeration, fun value =>
    .ofMembers (enumeration.members (fun v => .number (.ofFloat v)) value)⟩

end Library

end DesignChart.Json
