import DesignChart.Json

/-!
Reading JSON values from their tokens, one after the other.

The reader keeps the arrays and objects that are still open, innermost first, and knows what may
come next. A value that is complete is delivered to the innermost of them, or is the whole.
-/

namespace DesignChart.Json

/-- An array or object whose next value is due, with what it holds already, last first. -/
inductive Frame
  | array (done : List Json)
  | object (done : List (Text × Json)) (name : Text)

/-- What a reader is waiting for, within the open arrays and objects. -/
inductive Reader
  /-- A value. -/
  | anyValue (stack : List Frame)
  /-- The first element of an array, or its end. -/
  | arrayStart (stack : List Frame)
  /-- A comma in an array, or its end. -/
  | arrayNext (stack : List Frame) (done : List Json)
  /-- The first name in an object, or its end. -/
  | objectStart (stack : List Frame)
  /-- A name in an object. -/
  | objectName (stack : List Frame) (done : List (Text × Json))
  /-- The colon after a name. -/
  | objectColon (stack : List Frame) (done : List (Text × Json)) (name : Text)
  /-- A comma in an object, or its end. -/
  | objectNext (stack : List Frame) (done : List (Text × Json))
  /-- Nothing: the value is complete. -/
  | finished (value : Json)

namespace Reader

/-- Hands a complete value to the innermost open array or object. -/
def deliver : List Frame → Json → Reader
  | [], value => finished value
  | .array done :: stack, value => arrayNext stack (value :: done)
  | .object done name :: stack, value => objectNext stack ((name, value) :: done)

/-- Takes the first token of a value. -/
def begin? (stack : List Frame) : Token → Option Reader
  | .null => some (deliver stack .null)
  | .bool b => some (deliver stack (.bool b))
  | .number n => some (deliver stack (.number n))
  | .string text => some (deliver stack (.string text))
  | .beginArray => some (arrayStart stack)
  | .beginObject => some (objectStart stack)
  | _ => none

/-- Takes the next token. -/
def step? : Reader → Token → Option Reader
  | anyValue stack, token => begin? stack token
  | arrayStart stack, .endArray => some (deliver stack (.array []))
  | arrayStart stack, token => begin? (.array [] :: stack) token
  | arrayNext stack done, .comma => some (anyValue (.array done :: stack))
  | arrayNext stack done, .endArray => some (deliver stack (.array done.reverse))
  | objectStart stack, .endObject => some (deliver stack (.object []))
  | objectStart stack, .string name => some (objectColon stack [] name)
  | objectName stack done, .string name => some (objectColon stack done name)
  | objectColon stack done name, .colon => some (anyValue (.object done name :: stack))
  | objectNext stack done, .comma => some (objectName stack done)
  | objectNext stack done, .endObject => some (deliver stack (.object done.reverse))
  | _, _ => none

/-- The value, once nothing more is due. -/
def result? : Reader → Option Json
  | finished value => some value
  | _ => none

end Reader

/-- The value that the tokens are written for. -/
def ofTokens? (tokens : List Token) : Option Json :=
  (tokens.foldlM Reader.step? (.anyValue [])).bind Reader.result?

/-- The value that a text stands for, with blanks around it or not. -/
def parse? (text : String) : Option Json := (Token.scan? text.toList).bind ofTokens?

end DesignChart.Json
