import DesignChart.Json.Number
import DesignChart.Json.Text

/-!
The tokens of a JSON text: brackets, braces, commas, colons, and values without parts.

Between tokens stand blanks, which are a space, a tab, a line feed or a carriage return. A run of
characters other than blanks, quotes and the marks of structure is a word, which goes on as far as
it can: it is `null`, `true`, `false` or a number, or the text has no tokens.
-/

namespace DesignChart.Json

/-- The smallest parts of a JSON text. -/
inductive Token
  | beginArray
  | endArray
  | beginObject
  | endObject
  | comma
  | colon
  | null
  | bool (value : Bool)
  | number (number : Number)
  | string (text : Text)
deriving DecidableEq

namespace Token

/-- What stands between tokens. -/
def isBlank (c : Char) : Bool := c = ' ' || c = '\t' || c = '\n' || c = '\r'

/-- The token that a mark of structure is. -/
def ofMark? : Char → Option Token
  | '[' => some beginArray
  | ']' => some endArray
  | '{' => some beginObject
  | '}' => some endObject
  | ',' => some comma
  | ':' => some colon
  | _ => none

/-- A character of a word. -/
def isWordChar (c : Char) : Bool := !isBlank c && c != '"' && (ofMark? c).isNone

/-- The token that a word is. -/
def ofWord? (word : List Char) : Option Token :=
  if word = "null".toList then some null
  else if word = "true".toList then some (bool true)
  else if word = "false".toList then some (bool false)
  else (Number.ofChars? word).map number

/-- The tokens of a text. -/
def scan? (cs : List Char) : Option (List Token) :=
  match cs with
  | [] => some []
  | c :: rest =>
    if isBlank c then
      scan? rest
    else if c = '"' then
      match h : Text.read? rest with
      | some (text, rest) =>
        have := Text.length_lt_of_read? h
        (scan? rest).map (string text :: ·)
      | none => none
    else
      match ofMark? c with
      | some mark => (scan? rest).map (mark :: ·)
      | none =>
        match ofWord? (c :: rest.takeWhile isWordChar) with
        | some word =>
          have := (rest.dropWhile_suffix isWordChar).length_le
          (scan? (rest.dropWhile isWordChar)).map (word :: ·)
        | none => none
termination_by cs.length

/-- The characters of a token. -/
def text : Token → String
  | beginArray => "["
  | endArray => "]"
  | beginObject => "\x7b"
  | endObject => "\x7d"
  | comma => ","
  | colon => ":"
  | null => "null"
  | bool true => "true"
  | bool false => "false"
  | number n => n.text
  | string t => t.quoted

end Token

end DesignChart.Json
