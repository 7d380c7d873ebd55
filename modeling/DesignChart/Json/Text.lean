/-!
The strings of JSON.

Between quotes stand characters other than quotes, backslashes and control characters, and escapes
for these and any others. An escape of four hexadecimal digits names a unit of UTF-16, so that a
character beyond the first plane takes two of them, its high and its low half.
-/

namespace DesignChart.Json

/-- The text that a string stands for; none where an escape names one half of a character without
the other. -/
abbrev Text := Option String

namespace Text

/-- A part of a string: a character, or half of one. -/
inductive Piece
  | char (c : Char)
  | high (unit : Nat)
  | low (unit : Nat)

/-- The number that a hexadecimal digit stands for. -/
def hexDigit? (c : Char) : Option Nat :=
  if '0' ≤ c && c ≤ '9' then some (c.val.toNat - 48)
  else if 'a' ≤ c && c ≤ 'f' then some (c.val.toNat - 87)
  else if 'A' ≤ c && c ≤ 'F' then some (c.val.toNat - 55)
  else none

/-- The number that a row of hexadecimal digits stands for. -/
def hexValue? (digits : List Char) : Option Nat :=
  digits.foldlM (fun value c => (hexDigit? c).map (16 * value + ·)) 0

/-- The part of a string that a unit of UTF-16 is. -/
def Piece.ofUnit (unit : Nat) : Piece :=
  if 0xD800 ≤ unit && unit < 0xDC00 then high unit
  else if 0xDC00 ≤ unit && unit < 0xE000 then low unit
  else char (Char.ofNat unit)

/-- The character that a letter names after a backslash. -/
def escape? : Char → Option Char
  | '"' => some '"'
  | '\\' => some '\\'
  | '/' => some '/'
  | 'b' => some '\x08'
  | 'f' => some '\x0c'
  | 'n' => some '\n'
  | 'r' => some '\r'
  | 't' => some '\t'
  | _ => none

/-- The parts of a string after its opening quote, and what follows its closing quote. -/
def pieces? : List Char → Option (List Piece × List Char)
  | [] => none
  | '"' :: rest => some ([], rest)
  | '\\' :: 'u' :: a :: b :: c :: d :: rest =>
    match hexValue? [a, b, c, d], pieces? rest with
    | some unit, some (pieces, rest) => some (.ofUnit unit :: pieces, rest)
    | _, _ => none
  | '\\' :: c :: rest =>
    match escape? c, pieces? rest with
    | some c, some (pieces, rest) => some (.char c :: pieces, rest)
    | _, _ => none
  | c :: rest =>
    if c < ' ' then none
    else
      match pieces? rest with
      | some (pieces, rest) => some (.char c :: pieces, rest)
      | none => none

/-- The characters of a string, if each half of a character has its other half. -/
def characters? : List Piece → Option (List Char)
  | [] => some []
  | .char c :: rest => (characters? rest).map (c :: ·)
  | .high h :: .low l :: rest =>
    (characters? rest).map (Char.ofNat (0x10000 + (h - 0xD800) * 0x400 + (l - 0xDC00)) :: ·)
  | .high _ :: _ => none
  | .low _ :: _ => none

/-- The text of a string after its opening quote, and what follows its closing quote. -/
def read? (cs : List Char) : Option (Text × List Char) :=
  (pieces? cs).map fun (pieces, rest) => ((characters? pieces).map String.ofList, rest)

theorem length_lt_of_pieces? {cs rest : List Char} {pieces : List Piece}
    (h : pieces? cs = some (pieces, rest)) : rest.length < cs.length := by
  fun_induction pieces? cs generalizing pieces rest with
  | case1 => cases h
  | case2 => cases h; simp
  | case3 a b c d cs piece pieces rest hr _ ih =>
    cases h
    have := ih hr
    simp only [List.length_cons]
    omega
  | case4 => cases h
  | case5 c cs _ c' pieces rest hr _ ih =>
    cases h
    have := ih hr
    simp only [List.length_cons]
    omega
  | case6 => cases h
  | case7 => cases h
  | case8 c cs _ _ _ _ pieces rest hr ih =>
    cases h
    have := ih hr
    simp only [List.length_cons]
    omega
  | case9 => cases h

theorem length_lt_of_read? {cs rest : List Char} {text : Text}
    (h : read? cs = some (text, rest)) : rest.length < cs.length := by
  unfold read? at h
  cases hp : pieces? cs with
  | none => simp [hp] at h
  | some p =>
    rw [hp, Option.map_some, Option.some.injEq, Prod.mk.injEq] at h
    exact h.2 ▸ length_lt_of_pieces? hp

def hexDigit (n : Nat) : Char := Char.ofNat (if n < 10 then n + 48 else n + 87)

/-- A character within a string: quotes, backslashes and control characters are escaped. -/
def escaped (c : Char) : List Char :=
  if c = '"' || c = '\\' then ['\\', c]
  else if c < ' ' then
    ['\\', 'u', '0', '0', hexDigit (c.val.toNat / 16), hexDigit (c.val.toNat % 16)]
  else [c]

/-- A text between quotes. Half of a character is written as some half. -/
def quoted : Text → String
  | some text => "\"" ++ String.ofList (text.toList.flatMap escaped) ++ "\""
  | none => "\"\\ud800\""

end Text

end DesignChart.Json
