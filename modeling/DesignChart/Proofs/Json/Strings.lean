import Mathlib
import DesignChart.Json.Text

/-!
# The strings of JSON as a grammar

Between its quotes a string is a row of plain characters, escapes and units of UTF-16, and it is
read up to the first quote that is none of these. What is written for a text, with the escapes it
needs, is such a row and stands for that text.
-/

namespace DesignChart.Json.Text

/-- The characters between the quotes of a string, and the parts that they name. -/
inductive Body : List Char → List Piece → Prop
  | nil : Body [] []
  | unit {a b c d : Char} {unit : Nat} {body : List Char} {pieces : List Piece}
      (h : hexValue? [a, b, c, d] = some unit) (hbody : Body body pieces) :
      Body ('\\' :: 'u' :: a :: b :: c :: d :: body) (.ofUnit unit :: pieces)
  | escape {c named : Char} {body : List Char} {pieces : List Piece}
      (h : escape? c = some named) (hbody : Body body pieces) :
      Body ('\\' :: c :: body) (.char named :: pieces)
  | plain {c : Char} {body : List Char} {pieces : List Piece} (hquote : c ≠ '"')
      (hbackslash : c ≠ '\\') (hcontrol : ¬ c < ' ') (hbody : Body body pieces) :
      Body (c :: body) (.char c :: pieces)

theorem exists_body {cs rest : List Char} {pieces : List Piece}
    (h : pieces? cs = some (pieces, rest)) :
    ∃ body, cs = body ++ '"' :: rest ∧ Body body pieces := by
  fun_induction pieces? cs generalizing pieces rest with
  | case1 => cases h
  | case2 =>
    cases h
    exact ⟨[], rfl, .nil⟩
  | case3 a b c d cs unit found rest' hfound hunit ih =>
    cases h
    obtain ⟨body, rfl, hbody⟩ := ih hfound
    exact ⟨_, rfl, .unit hunit hbody⟩
  | case4 => cases h
  | case5 c cs _ named found rest' hfound hnamed ih =>
    cases h
    obtain ⟨body, rfl, hbody⟩ := ih hfound
    exact ⟨_, rfl, .escape hnamed hbody⟩
  | case6 => cases h
  | case7 => cases h
  | case8 c cs hquote hunit hescape hcontrol found rest' hfound ih =>
    cases h
    obtain ⟨body, rfl, hbody⟩ := ih hfound
    have hbackslash : c ≠ '\\' := by
      intro hc
      -- a backslash before more characters begins an escape
      cases body with
      | nil => exact hescape _ _ hc rfl
      | cons first body => exact hescape _ _ hc rfl
    exact ⟨c :: body, rfl, .plain hquote hbackslash hcontrol hbody⟩
  | case9 => cases h

theorem pieces?_of_body {body : List Char} {pieces : List Piece} (h : Body body pieces)
    (rest : List Char) : pieces? (body ++ '"' :: rest) = some (pieces, rest) := by
  induction h with
  | nil => rfl
  | unit h hbody ih =>
    simp only [List.cons_append]
    rw [pieces?, h, ih]
  | @escape c named body pieces h hbody ih =>
    have hu : c ≠ 'u' := by
      rintro rfl
      cases h
    simp only [List.cons_append]
    rw [pieces?, h, ih]
    exact fun _ _ _ _ _ hc => absurd hc hu
  | plain hquote hbackslash hcontrol hbody ih =>
    simp only [List.cons_append]
    rw [pieces?, if_neg hcontrol, ih]
    · exact hquote
    · exact fun _ _ _ _ _ hc => absurd hc hbackslash
    · exact fun _ _ hc => absurd hc hbackslash

/-- A string is read to the end of its body. -/
theorem pieces?_eq_some_iff {cs rest : List Char} {pieces : List Piece} :
    pieces? cs = some (pieces, rest) ↔ ∃ body, cs = body ++ '"' :: rest ∧ Body body pieces := by
  constructor
  · exact exists_body
  · rintro ⟨body, rfl, hbody⟩
    exact pieces?_of_body hbody rest

theorem read?_eq_some_iff {cs rest : List Char} {text : Text} :
    read? cs = some (text, rest) ↔ ∃ body pieces, cs = body ++ '"' :: rest ∧ Body body pieces ∧
      text = (characters? pieces).map String.ofList := by
  unfold read?
  simp only [Option.map_eq_some_iff, Prod.mk.injEq, Prod.exists, pieces?_eq_some_iff]
  constructor
  · rintro ⟨pieces, _, ⟨body, hcs, hbody⟩, rfl, rfl⟩
    exact ⟨body, pieces, hcs, hbody, rfl⟩
  · rintro ⟨body, pieces, hcs, hbody, rfl⟩
    exact ⟨pieces, rest, ⟨body, hcs, hbody⟩, rfl, rfl⟩

section Quoted

theorem toNat_lt_of_lt {c : Char} (h : c < ' ') : c.val.toNat < 32 := h

/-- The four digits of a control character. -/
theorem hexValue?_control : ∀ n < 32,
    hexValue? ['0', '0', hexDigit (n / 16), hexDigit (n % 16)] = some n := by
  decide

theorem body_escaped (c : Char) {body : List Char} {pieces : List Piece} (h : Body body pieces) :
    Body (escaped c ++ body) (.char c :: pieces) := by
  unfold escaped
  split_ifs with hmark hcontrol
  · rcases (by simpa using hmark : c = '"' ∨ c = '\\') with rfl | rfl
    · exact .escape rfl h
    · exact .escape rfl h
  · have hn := toNat_lt_of_lt hcontrol
    have hunit : Piece.ofUnit c.val.toNat = .char c := by
      have hlow : ¬ 0xD800 ≤ c.val.toNat := by omega
      have hhigh : ¬ 0xDC00 ≤ c.val.toNat := by omega
      simp only [Piece.ofUnit, hlow, hhigh, decide_false, Bool.false_and]
      exact congrArg Piece.char (Char.ofNat_toNat c)
    rw [← hunit]
    exact .unit (hexValue?_control _ hn) h
  · have hmark : c ≠ '"' ∧ c ≠ '\\' := by simpa using hmark
    exact .plain hmark.1 hmark.2 hcontrol h

theorem body_flatMap_escaped (cs : List Char) : Body (cs.flatMap escaped) (cs.map .char) := by
  induction cs with
  | nil => exact .nil
  | cons c cs ih => exact body_escaped c ih

theorem characters?_map_char (cs : List Char) : characters? (cs.map .char) = some cs := by
  induction cs with
  | nil => rfl
  | cons c cs ih =>
    rw [List.map_cons, characters?, ih]
    rfl

/-- A text is written as a string that stands for it. -/
theorem exists_quoted (text : Text) : ∃ body pieces, (quoted text).toList = '"' :: body ++ ['"'] ∧
    Body body pieces ∧ text = (characters? pieces).map String.ofList := by
  cases text with
  | none =>
    have hbody : Body ['\\', 'u', 'd', '8', '0', '0'] [.ofUnit 0xD800] := .unit rfl .nil
    exact ⟨_, _, rfl, hbody, rfl⟩
  | some s =>
    refine ⟨_, _, ?_, body_flatMap_escaped s.toList, ?_⟩
    · simp [quoted]
    · rw [characters?_map_char, Option.map_some, String.ofList_toList]

end Quoted

end DesignChart.Json.Text
