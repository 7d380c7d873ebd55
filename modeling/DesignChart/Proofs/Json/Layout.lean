import DesignChart.Proofs.Json.Numbers
import DesignChart.Proofs.Json.Reading
import DesignChart.Proofs.Json.Strings

/-!
# Texts are tokens with blanks between them

A text has tokens exactly if it is laid out from them: each is spelled in one of the ways it may be,
blanks stand before, between and behind them, and only behind a word something has to stand that
does not lengthen it. What a text is read as thus depends on how its tokens are spelled, and not on
its blanks.
-/

namespace DesignChart.Json

namespace Token

/-- The characters that are read as a token. -/
inductive Spells : List Char → Token → Prop
  | mark {c : Char} {token : Token} (h : ofMark? c = some token) : Spells [c] token
  | string {body : List Char} {pieces : List Text.Piece} (h : Text.Body body pieces) :
      Spells ('"' :: body ++ ['"']) (.string ((Text.characters? pieces).map String.ofList))
  | word {word : List Char} {token : Token} (hne : word ≠ [])
      (hchars : ∀ c ∈ word, isWordChar c = true) (h : ofWord? word = some token) : Spells word token

end Token

open Token

/-- A token as it is spelled. -/
structure Lexeme where
  chars : List Char
  token : Token
  spells : Spells chars token

/-- A word ends before `rest`. Marks and strings end by themselves. -/
def Lexeme.EndsBefore (lexeme : Lexeme) (rest : List Char) : Prop :=
  (∀ c ∈ lexeme.chars, isWordChar c = true) → ∀ c ∈ rest.head?, isWordChar c = false

/-- The texts of a row of tokens. -/
inductive Layout : List Lexeme → List Char → Prop
  | nil : Layout [] []
  | blank {c : Char} {lexemes : List Lexeme} {rest : List Char} (h : isBlank c = true)
      (hrest : Layout lexemes rest) : Layout lexemes (c :: rest)
  | lexeme {first : Lexeme} {lexemes : List Lexeme} {rest : List Char}
      (hends : first.EndsBefore rest) (hrest : Layout lexemes rest) :
      Layout (first :: lexemes) (first.chars ++ rest)

/-- A value is written by any layout of its tokens. -/
def Writes (text : String) (value : Json) : Prop :=
  ∃ lexemes : List Lexeme, lexemes.map Lexeme.token = value.tokens ∧ Layout lexemes text.toList

namespace Token

theorem isWordChar_eq_true_iff {c : Char} :
    isWordChar c = true ↔ isBlank c = false ∧ c ≠ '"' ∧ ofMark? c = none := by
  simp [isWordChar, and_assoc]

theorem isBlank_of_ofMark? {c : Char} {token : Token} (h : ofMark? c = some token) :
    isBlank c = false ∧ c ≠ '"' := by
  unfold ofMark? at h
  split at h
  case h_7 => cases h
  all_goals exact ⟨rfl, by decide⟩

theorem scan?_blank {c : Char} (h : isBlank c = true) (rest : List Char) :
    scan? (c :: rest) = scan? rest := by
  rw [scan?, if_pos h]

theorem scan?_mark {c : Char} {token : Token} (h : ofMark? c = some token) (rest : List Char) :
    scan? (c :: rest) = (scan? rest).map (token :: ·) := by
  have hc := isBlank_of_ofMark? h
  rw [scan?, if_neg (by simp [hc.1]), if_neg hc.2, h]

theorem scan?_string {cs rest : List Char} {text : Text} (h : Text.read? cs = some (text, rest)) :
    scan? ('"' :: cs) = (scan? rest).map (string text :: ·) := by
  rw [scan?, if_neg (by decide), if_pos rfl]
  split
  next heq =>
    rw [h] at heq
    cases heq
    rfl
  next heq =>
    rw [h] at heq
    cases heq

theorem scan?_word {word rest : List Char} {token : Token} (hne : word ≠ [])
    (hchars : ∀ c ∈ word, isWordChar c = true) (hends : ∀ c ∈ rest.head?, isWordChar c = false)
    (h : ofWord? word = some token) : scan? (word ++ rest) = (scan? rest).map (token :: ·) := by
  cases word with
  | nil => exact absurd rfl hne
  | cons c word =>
    have hc := isWordChar_eq_true_iff.mp (hchars c List.mem_cons_self)
    have hword : ∀ d ∈ word, isWordChar d = true :=
      fun d hd => hchars d (List.mem_cons_of_mem c hd)
    rw [List.cons_append, scan?, if_neg (by simp [hc.1]), if_neg hc.2.1, hc.2.2]
    dsimp only
    rw [takeWhile_append_of_ends hword hends, dropWhile_append_of_ends hword hends, h]

end Token

theorem scan?_of_layout {lexemes : List Lexeme} {cs : List Char} (h : Layout lexemes cs) :
    scan? cs = some (lexemes.map Lexeme.token) := by
  induction h with
  | nil => rw [scan?, List.map_nil]
  | blank h hrest ih => rw [scan?_blank h, ih]
  | @lexeme first lexemes rest hends hrest ih =>
    obtain ⟨chars, token, spells⟩ := first
    have hscan : scan? (chars ++ rest) = (scan? rest).map (token :: ·) := by
      cases spells with
      | mark h => exact scan?_mark h rest
      | @string body pieces h =>
        rw [List.append_assoc, List.singleton_append, List.cons_append]
        exact scan?_string (Text.read?_eq_some_iff.mpr ⟨body, pieces, rfl, h, rfl⟩)
      | word hne hchars h => exact scan?_word hne hchars (hends hchars) h
    rw [hscan, ih]
    rfl

theorem Token.mark_not_word {c : Char} {token : Token} (h : ofMark? c = some token) :
    isWordChar c = false := by
  simp [isWordChar, h]

theorem exists_layout_cons {chars rest : List Char} {token : Token} {tokens : List Token}
    (spells : Spells chars token) (hends : Lexeme.EndsBefore ⟨chars, token, spells⟩ rest)
    (hrest : ∃ lexemes : List Lexeme, lexemes.map Lexeme.token = tokens ∧ Layout lexemes rest) :
    ∃ lexemes : List Lexeme,
      lexemes.map Lexeme.token = token :: tokens ∧ Layout lexemes (chars ++ rest) := by
  obtain ⟨lexemes, rfl, hlayout⟩ := hrest
  exact ⟨⟨chars, token, spells⟩ :: lexemes, rfl, .lexeme hends hlayout⟩

theorem exists_layout {cs : List Char} {tokens : List Token} (h : scan? cs = some tokens) :
    ∃ lexemes : List Lexeme, lexemes.map Lexeme.token = tokens ∧ Layout lexemes cs := by
  fun_induction scan? cs generalizing tokens with
  | case1 =>
    cases h
    exact ⟨[], rfl, .nil⟩
  | case2 c rest hblank ih =>
    obtain ⟨lexemes, hlexemes, hrest⟩ := ih h
    exact ⟨lexemes, hlexemes, .blank hblank hrest⟩
  | case3 rest text rest' hread _ _ ih =>
    obtain ⟨tokens', hscan, rfl⟩ := Option.map_eq_some_iff.mp h
    obtain ⟨body, pieces, rfl, hbody, rfl⟩ := Text.read?_eq_some_iff.mp hread
    have hends : Lexeme.EndsBefore ⟨_, _, .string hbody⟩ rest' := by
      intro hword
      cases hword '"' List.mem_cons_self
    have hlayout := exists_layout_cons (.string hbody) hends (ih hscan)
    rwa [List.append_assoc, List.singleton_append, List.cons_append] at hlayout
  | case4 => cases h
  | case5 c rest _ _ mark hmark ih =>
    obtain ⟨tokens', hscan, rfl⟩ := Option.map_eq_some_iff.mp h
    have hends : Lexeme.EndsBefore ⟨_, _, .mark hmark⟩ rest := by
      intro hword
      have hc := hword c List.mem_cons_self
      rw [mark_not_word hmark] at hc
      cases hc
    exact exists_layout_cons (.mark hmark) hends (ih hscan)
  | case6 c rest hblank hquote hmark token hword _ ih =>
    obtain ⟨tokens', hscan, rfl⟩ := Option.map_eq_some_iff.mp h
    have hchars : ∀ d ∈ c :: rest.takeWhile isWordChar, isWordChar d = true := by
      intro d hd
      rcases List.mem_cons.mp hd with rfl | hd
      · exact isWordChar_eq_true_iff.mpr ⟨by simpa using hblank, hquote, hmark⟩
      · exact List.mem_takeWhile_imp hd
    have hends : Lexeme.EndsBefore ⟨_, _, .word (List.cons_ne_nil _ _) hchars hword⟩
        (rest.dropWhile isWordChar) := by
      intro _ d hd
      have hhead := List.head?_dropWhile_not isWordChar rest
      rwa [Option.mem_def.mp hd] at hhead
    have hlayout := exists_layout_cons _ hends (ih hscan)
    rwa [List.cons_append, List.takeWhile_append_dropWhile] at hlayout
  | case7 => cases h

/-- The tokens of a text are those that it is laid out from. -/
theorem scan?_eq_some_iff {cs : List Char} {tokens : List Token} : scan? cs = some tokens ↔
    ∃ lexemes : List Lexeme, lexemes.map Lexeme.token = tokens ∧ Layout lexemes cs := by
  constructor
  · exact exists_layout
  · rintro ⟨lexemes, rfl, hlayout⟩
    exact scan?_of_layout hlayout

end DesignChart.Json
