import DesignChart.Decimal

/-!
The numbers of JSON.

A number keeps the digits it is written with, so that whole numbers stay apart from numbers with a
point or an exponent. It is written as digits of which the first is a zero only if it is alone, and
then a point with digits, and then an exponent, where it has them.
-/

namespace DesignChart.Json

/-- A number as written. -/
structure Number where
  negative : Bool
  whole : Nat
  /-- The digits after the point; without any there is no point. -/
  fraction : List (Fin 10)
  /-- The power of ten, where one is written. -/
  exponent : Option Int
deriving DecidableEq

def isDigit (c : Char) : Bool := '0' ≤ c && c ≤ '9'

/-- The value of a digit. -/
def digitOf (c : Char) : Fin 10 := Fin.ofNat 10 (c.val.toNat - 48)

/-- The number that is written by the digits of `value` and then `digits`. -/
def appendDigits (value : Nat) (digits : List (Fin 10)) : Nat :=
  digits.foldl (fun value digit => 10 * value + digit.val) value

namespace Number

/-- A whole number in plain digits. -/
def ofNat (n : Nat) : Number := ⟨false, n, [], none⟩

/-- A whole number that is not negative and has neither a point nor an exponent. -/
def toNat? (n : Number) : Option Nat :=
  if n.negative || !n.fraction.isEmpty || n.exponent.isSome then none else some n.whole

/-- The number that is written. -/
def toDecimal (n : Number) : Decimal where
  negative := n.negative
  digits := appendDigits n.whole n.fraction
  exponent := n.exponent.getD 0 - n.fraction.length

/-- The characters of a number. -/
def text (n : Number) : String :=
  (if n.negative then "-" else "") ++ toString n.whole ++
    (if n.fraction.isEmpty then "" else "." ++ String.join (n.fraction.map (toString ·.val))) ++
    match n.exponent with
    | some exponent => "e" ++ toString exponent
    | none => ""

/-- Digits, at least one of them, and what follows them. -/
def digits? (cs : List Char) : Option (List (Fin 10) × List Char) :=
  match cs.takeWhile isDigit with
  | [] => none
  | digits => some (digits.map digitOf, cs.dropWhile isDigit)

/-- Digits that do not begin with a zero unless that is all. -/
def whole? (cs : List Char) : Option (Nat × List Char) :=
  match digits? cs with
  | some (0 :: _ :: _, _) => none
  | some (digits, rest) => some (appendDigits 0 digits, rest)
  | none => none

/-- The digits after a point, if there is a point. -/
def fraction? : List Char → Option (List (Fin 10) × List Char)
  | '.' :: cs => digits? cs
  | cs => some ([], cs)

/-- The exponent after its letter, with or without a sign. -/
def signed? : List Char → Option (Int × List Char)
  | '+' :: cs => (digits? cs).map fun (digits, rest) => (appendDigits 0 digits, rest)
  | '-' :: cs => (digits? cs).map fun (digits, rest) => (-(appendDigits 0 digits : Int), rest)
  | cs => (digits? cs).map fun (digits, rest) => (appendDigits 0 digits, rest)

/-- The exponent, if there is one. -/
def exponent? : List Char → Option (Option Int × List Char)
  | 'e' :: cs | 'E' :: cs => (signed? cs).map fun (exponent, rest) => (some exponent, rest)
  | cs => some (none, cs)

/-- The number that is written by all of the given characters. -/
def ofChars? (cs : List Char) : Option Number := do
  let (negative, cs) := match cs with
    | '-' :: cs => (true, cs)
    | cs => (false, cs)
  let (whole, cs) ← whole? cs
  let (fraction, cs) ← fraction? cs
  let (exponent, cs) ← exponent? cs
  if cs.isEmpty then some ⟨negative, whole, fraction, exponent⟩ else none

end Number

end DesignChart.Json
