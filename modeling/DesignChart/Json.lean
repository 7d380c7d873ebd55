import DesignChart.Json.Token

/-!
JSON values, and the tokens they are written with.

An object keeps its members in order, repeated names included: what a repetition means is for its
reader to say.
-/

namespace DesignChart

/-- A JSON value. -/
inductive Json
  | null
  | bool (value : Bool)
  | number (number : Json.Number)
  | string (text : Json.Text)
  | array (elements : List Json)
  | object (members : List (Json.Text × Json))

namespace Json

/-- An object with properly named members. -/
def ofMembers (members : List (String × Json)) : Json :=
  object (members.map fun (name, value) => (some name, value))

mutual

/-- The tokens of a value. -/
def tokens : Json → List Token
  | null => [.null]
  | bool value => [.bool value]
  | number n => [.number n]
  | string text => [.string text]
  | array [] => [.beginArray, .endArray]
  | array (element :: rest) =>
    .beginArray :: element.tokens ++ elementTokens rest ++ [.endArray]
  | object [] => [.beginObject, .endObject]
  | object ((name, value) :: rest) =>
    .beginObject :: .string name :: .colon :: value.tokens ++ memberTokens rest ++ [.endObject]

/-- The tokens of further elements, a comma before each. -/
def elementTokens : List Json → List Token
  | [] => []
  | element :: rest => .comma :: element.tokens ++ elementTokens rest

/-- The tokens of further members, a comma before each. -/
def memberTokens : List (Text × Json) → List Token
  | [] => []
  | (name, value) :: rest => .comma :: .string name :: .colon :: value.tokens ++ memberTokens rest

end

/-- A value as text, without blanks. -/
def render (value : Json) : String := String.join (value.tokens.map Token.text)

end Json

end DesignChart
