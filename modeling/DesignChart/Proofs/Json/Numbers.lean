import Mathlib
import DesignChart.Json.Token

/-!
# Numbers as written are read back

The digits of a natural number do not begin with a zero unless that is all, so they are read in full
up to the first character that is no digit, which a point, a letter or the end is. Sign, digits,
fraction and exponent are thus read one after the other as they were written.
-/

namespace DesignChart.Json

section Span

variable {p : Char → Bool} {word rest : List Char}

theorem takeWhile_append_of_ends (hword : ∀ c ∈ word, p c = true)
    (hrest : ∀ c ∈ rest.head?, p c = false) : (word ++ rest).takeWhile p = word := by
  rw [List.takeWhile_append_of_pos hword]
  cases rest with
  | nil => simp
  | cons c rest => simp [hrest c rfl]

theorem dropWhile_append_of_ends (hword : ∀ c ∈ word, p c = true)
    (hrest : ∀ c ∈ rest.head?, p c = false) : (word ++ rest).dropWhile p = rest := by
  rw [List.dropWhile_append_of_pos hword]
  cases rest with
  | nil => rfl
  | cons c rest => simp [hrest c rfl]

end Span

namespace Number

/-- No digit is next. -/
def NoDigit (cs : List Char) : Prop := ∀ c ∈ cs.head?, isDigit c = false

theorem digits?_append {cs rest : List Char} (hne : cs ≠ []) (hcs : ∀ c ∈ cs, isDigit c = true)
    (hrest : NoDigit rest) : digits? (cs ++ rest) = some (cs.map digitOf, rest) := by
  unfold digits?
  rw [takeWhile_append_of_ends hcs hrest, dropWhile_append_of_ends hcs hrest]
  cases cs with
  | nil => exact absurd rfl hne
  | cons c cs => rfl

section Natural

theorem isDigit_of_mem_toDigits {n : Nat} {c : Char} (h : c ∈ Nat.toDigits 10 n) :
    isDigit c = true :=
  Nat.isDigit_of_mem_toDigits (by decide) le_rfl h

theorem toDigits_ne_cons (n : Nat) {c : Char} (hc : isDigit c = false) (cs : List Char) :
    Nat.toDigits 10 n ≠ c :: cs := by
  intro heq
  rw [isDigit_of_mem_toDigits (heq ▸ List.mem_cons_self)] at hc
  cases hc

theorem val_digitOf {c : Char} (h : isDigit c = true) :
    (digitOf c).val = c.toNat - '0'.toNat := by
  have hle : c.toNat ≤ 57 := by
    simp only [isDigit, Bool.and_eq_true, decide_eq_true_eq] at h
    exact h.2
  change (c.toNat - 48) % 10 = c.toNat - 48
  omega

theorem eq_ofNat_digitOf {c : Char} (h : isDigit c = true) :
    c = Char.ofNat (48 + (digitOf c).val) := by
  have hval := val_digitOf h
  simp only [isDigit, Bool.and_eq_true, decide_eq_true_eq] at h
  have hle : 48 ≤ c.toNat := h.1
  change (digitOf c).val = c.toNat - 48 at hval
  rw [hval, Nat.add_sub_cancel' hle, Char.ofNat_toNat]

theorem appendDigits_map_digitOf (value : Nat) {cs : List Char} (h : ∀ c ∈ cs, isDigit c = true) :
    appendDigits value (cs.map digitOf) = Nat.ofDigitChars 10 cs value := by
  induction cs generalizing value with
  | nil => rfl
  | cons c cs ih =>
    have hc := val_digitOf (h c List.mem_cons_self)
    refine (ih _ fun d hd => h d (List.mem_cons_of_mem c hd)).trans ?_
    change Nat.ofDigitChars 10 cs (10 * value + (digitOf c).val) = _
    rw [hc, Nat.ofDigitChars_cons]

theorem appendDigits_toDigits (n : Nat) :
    appendDigits 0 ((Nat.toDigits 10 n).map digitOf) = n := by
  rw [appendDigits_map_digitOf 0 fun c => isDigit_of_mem_toDigits, Nat.ofDigitChars_ten_toDigits]

/-- The first digit of a positive number is none of its zeros. -/
theorem head?_toDigits_ne {n : Nat} (h : 0 < n) : (Nat.toDigits 10 n).head? ≠ some '0' := by
  induction n using Nat.strong_induction_on with
  | _ n ih =>
    by_cases hn : n < 10
    · rw [Nat.toDigits_of_lt_base hn]
      revert h
      interval_cases n <;> decide
    · have hhead := ih (n / 10) (by omega) (by omega)
      rw [Nat.toDigits_of_base_le (by decide) (by omega),
        List.head?_append_of_ne_nil _ Nat.toDigits_ne_nil]
      exact hhead

/-- Digits that begin with a zero are those of zero. -/
theorem toDigits_of_head?_eq {n : Nat} (h : (Nat.toDigits 10 n).head? = some '0') :
    Nat.toDigits 10 n = ['0'] := by
  rcases Nat.eq_zero_or_pos n with rfl | hn
  · rfl
  · exact absurd h (head?_toDigits_ne hn)

theorem whole?_toDigits (n : Nat) {rest : List Char} (hrest : NoDigit rest) :
    whole? (Nat.toDigits 10 n ++ rest) = some (n, rest) := by
  have hdigits := digits?_append Nat.toDigits_ne_nil
    (fun c => isDigit_of_mem_toDigits (n := n) (c := c)) hrest
  have hvalue := appendDigits_toDigits n
  unfold whole?
  rw [hdigits]
  split
  next second others rest' heq =>
    -- a zero with more digits behind it is written for no number
    rw [Option.some.injEq, Prod.mk.injEq] at heq
    cases hchars : Nat.toDigits 10 n with
    | nil => exact absurd hchars Nat.toDigits_ne_nil
    | cons c cs =>
      have hc : isDigit c = true := isDigit_of_mem_toDigits (hchars ▸ List.mem_cons_self)
      rw [hchars, List.map_cons, List.cons.injEq] at heq
      have hhead := congrArg List.head? hchars
      rw [eq_ofNat_digitOf hc, heq.1.1] at hhead
      rw [toDigits_of_head?_eq hhead, List.cons.injEq] at hchars
      rw [← hchars.2] at heq
      cases heq.1.2
  next digits rest' hzero heq =>
    rw [Option.some.injEq, Prod.mk.injEq] at heq
    rw [← heq.1, ← heq.2, hvalue]
  next heq => cases heq

end Natural

theorem toList_toString (n : Nat) : (toString n).toList = Nat.toDigits 10 n := by
  rw [Nat.toString_eq_ofList_toDigits, String.toList_ofList]

/-- The characters of a row of digits. -/
def digitChars (digits : List (Fin 10)) : List Char := digits.map fun d => Nat.digitChar d.val

theorem map_digitOf_digitChars (digits : List (Fin 10)) :
    (digitChars digits).map digitOf = digits := by
  have hdigit : ∀ d : Fin 10, digitOf (Nat.digitChar d.val) = d := by decide
  unfold digitChars
  rw [List.map_map]
  exact List.map_id'' hdigit digits

theorem isDigit_of_mem_digitChars {digits : List (Fin 10)} {c : Char} (h : c ∈ digitChars digits) :
    isDigit c = true := by
  have hdigit : ∀ d : Fin 10, isDigit (Nat.digitChar d.val) = true := by decide
  obtain ⟨d, -, rfl⟩ := List.mem_map.mp h
  exact hdigit d

/-- The characters of a whole number with its sign. -/
def intChars : Int → List Char
  | .ofNat n => Nat.toDigits 10 n
  | .negSucc n => '-' :: Nat.toDigits 10 (n + 1)

theorem toList_toString_int (n : Int) : (toString n).toList = intChars n := by
  cases n with
  | ofNat n => exact toList_toString n
  | negSucc n =>
    change ("-" ++ toString (n + 1)).toList = _
    rw [String.toList_append, toList_toString]
    rfl

/-- The characters after the whole part. -/
def fractionChars : List (Fin 10) → List Char
  | [] => []
  | digits => '.' :: digitChars digits

def exponentChars : Option Int → List Char
  | none => []
  | some exponent => 'e' :: intChars exponent

def signChars (negative : Bool) : List Char := if negative then ['-'] else []

theorem toList_text (n : Number) : n.text.toList =
    signChars n.negative ++ (Nat.toDigits 10 n.whole ++
      (fractionChars n.fraction ++ exponentChars n.exponent)) := by
  obtain ⟨negative, whole, fraction, exponent⟩ := n
  have hsign : (if negative then "-" else "").toList = signChars negative := by
    cases negative <;> rfl
  have hfraction : (if fraction.isEmpty then "" else
      "." ++ String.join (fraction.map (toString ·.val))).toList = fractionChars fraction := by
    cases fraction with
    | nil => rfl
    | cons first rest =>
      have hdigit : ∀ d : Fin 10, (toString d.val).toList = [Nat.digitChar d.val] := fun d => by
        rw [toList_toString, Nat.toDigits_of_lt_base d.isLt]
      change ("." ++ String.join _).toList = '.' :: digitChars (first :: rest)
      rw [String.toList_append, String.toList_join, List.flatMap_map]
      simp only [hdigit, digitChars]
      exact congrArg ('.' :: ·) (List.flatMap_pure_eq_map _ _)
  unfold text
  dsimp only
  rw [String.toList_append, String.toList_append, String.toList_append, hsign, hfraction,
    toList_toString, List.append_assoc, List.append_assoc]
  congr 3
  cases exponent with
  | none => rfl
  | some exponent =>
    dsimp only
    rw [String.toList_append, toList_toString_int]
    rfl

theorem noDigit_exponentChars (exponent : Option Int) : NoDigit (exponentChars exponent) := by
  cases exponent with
  | none => nofun
  | some exponent =>
    rintro c ⟨⟩
    rfl

theorem noDigit_fractionChars (fraction : List (Fin 10)) (exponent : Option Int) :
    NoDigit (fractionChars fraction ++ exponentChars exponent) := by
  cases fraction with
  | nil => exact noDigit_exponentChars exponent
  | cons first rest =>
    rintro c ⟨⟩
    rfl

theorem fraction?_fractionChars (fraction : List (Fin 10)) (exponent : Option Int) :
    fraction? (fractionChars fraction ++ exponentChars exponent) =
      some (fraction, exponentChars exponent) := by
  cases fraction with
  | nil =>
    cases exponent with
    | none => rfl
    | some exponent => rfl
  | cons first rest =>
    change digits? (digitChars (first :: rest) ++ exponentChars exponent) = _
    rw [digits?_append (by simp [digitChars]) (fun c => isDigit_of_mem_digitChars)
      (noDigit_exponentChars exponent), map_digitOf_digitChars]

theorem digits?_toDigits (n : Nat) {rest : List Char} (hrest : NoDigit rest) :
    digits? (Nat.toDigits 10 n ++ rest) = some ((Nat.toDigits 10 n).map digitOf, rest) :=
  digits?_append Nat.toDigits_ne_nil (fun _ => isDigit_of_mem_toDigits) hrest

theorem signed?_intChars (n : Int) : signed? (intChars n) = some (n, []) := by
  have hends : NoDigit [] := nofun
  have hread (m : Nat) := digits?_toDigits m hends
  simp only [List.append_nil] at hread
  cases n with
  | ofNat n =>
    change signed? (Nat.toDigits 10 n) = _
    rw [signed?, hread, Option.map_some]
    · dsimp only
      rw [appendDigits_toDigits]
      rfl
    · exact toDigits_ne_cons n rfl
    · exact toDigits_ne_cons n rfl
  | negSucc n =>
    change (digits? (Nat.toDigits 10 (n + 1))).map _ = _
    rw [hread, Option.map_some]
    dsimp only
    rw [appendDigits_toDigits]
    rfl

theorem exponent?_exponentChars (exponent : Option Int) :
    exponent? (exponentChars exponent) = some (exponent, []) := by
  cases exponent with
  | none => rfl
  | some exponent =>
    change (signed? (intChars exponent)).map _ = _
    rw [signed?_intChars]
    rfl

/-- The number of all of the given characters, its sign being known. -/
def unsigned? (negative : Bool) (cs : List Char) : Option Number := do
  let (whole, cs) ← whole? cs
  let (fraction, cs) ← fraction? cs
  let (exponent, cs) ← exponent? cs
  if cs.isEmpty then some ⟨negative, whole, fraction, exponent⟩ else none

theorem ofChars?_of_no_sign {cs : List Char} (h : ∀ rest, cs ≠ '-' :: rest) :
    ofChars? cs = unsigned? false cs := by
  unfold ofChars?
  split
  next negative rest heq =>
    split at heq
    next rest => exact absurd rfl (h rest)
    next =>
      cases heq
      rfl

/-- A number is read off its characters. -/
theorem ofChars?_text (n : Number) : ofChars? n.text.toList = some n := by
  obtain ⟨negative, whole, fraction, exponent⟩ := n
  have hunsigned : unsigned? negative (Nat.toDigits 10 whole ++
      (fractionChars fraction ++ exponentChars exponent)) =
        some ⟨negative, whole, fraction, exponent⟩ := by
    unfold unsigned?
    rw [whole?_toDigits whole (noDigit_fractionChars fraction exponent)]
    simp [fraction?_fractionChars, exponent?_exponentChars]
  rw [toList_text]
  cases negative with
  | true => exact hunsigned
  | false =>
    refine (ofChars?_of_no_sign fun rest heq => ?_).trans hunsigned
    cases hchars : Nat.toDigits 10 whole with
    | nil => exact Nat.toDigits_ne_nil hchars
    | cons c cs =>
      dsimp only [signChars] at heq
      rw [hchars] at heq
      obtain rfl : c = '-' := (List.cons.inj heq).1
      exact toDigits_ne_cons whole rfl cs hchars

section Word

theorem isWordChar_of_isDigit {c : Char} (h : isDigit c = true) : Token.isWordChar c = true := by
  have hdigit : ∀ d : Fin 10, Token.isWordChar (Char.ofNat (48 + d.val)) = true := by decide
  rw [eq_ofNat_digitOf h]
  exact hdigit (digitOf c)

theorem isWordChar_of_mem_intChars {n : Int} {c : Char} (h : c ∈ intChars n) :
    Token.isWordChar c = true := by
  cases n with
  | ofNat n => exact isWordChar_of_isDigit (isDigit_of_mem_toDigits h)
  | negSucc n =>
    rcases List.mem_cons.mp h with rfl | h
    · rfl
    · exact isWordChar_of_isDigit (isDigit_of_mem_toDigits h)

/-- Every character of a number belongs to a word. -/
theorem isWordChar_of_mem_text {n : Number} {c : Char} (h : c ∈ n.text.toList) :
    Token.isWordChar c = true := by
  obtain ⟨negative, whole, fraction, exponent⟩ := n
  rw [toList_text] at h
  simp only [List.mem_append] at h
  rcases h with h | h | h | h
  · cases negative with
    | true => exact List.mem_singleton.mp h ▸ rfl
    | false => cases h
  · exact isWordChar_of_isDigit (isDigit_of_mem_toDigits h)
  · cases fraction with
    | nil => cases h
    | cons first rest =>
      rcases List.mem_cons.mp h with rfl | h
      · rfl
      · exact isWordChar_of_isDigit (isDigit_of_mem_digitChars h)
  · cases exponent with
    | none => cases h
    | some exponent =>
      rcases List.mem_cons.mp h with rfl | h
      · rfl
      · exact isWordChar_of_mem_intChars h

/-- A number is none of the words that are letters, and is the word for itself. -/
theorem ofWord?_text (n : Number) : Token.ofWord? n.text.toList = some (.number n) := by
  have hword {word : List Char} (hnone : ofChars? word = none) : n.text.toList ≠ word := by
    rintro rfl
    rw [ofChars?_text] at hnone
    cases hnone
  unfold Token.ofWord?
  rw [if_neg (hword rfl), if_neg (hword rfl), if_neg (hword rfl), ofChars?_text]
  rfl

theorem text_ne_nil (n : Number) : n.text.toList ≠ [] := by
  intro hnil
  have hread := ofChars?_text n
  rw [hnil] at hread
  cases hread

end Word

end Number

end DesignChart.Json
