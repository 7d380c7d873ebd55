import DesignChart.Proofs.Json.Layout

/-!
# Values as texts

A text writes a value if it is laid out from the value's tokens. It is read as the value that it
writes, and as no other; and every value is written by its own tokens without blanks between them,
for of any two tokens that follow each other one is a mark or a string.
-/

namespace DesignChart.Json

/-- A text is read as the value that it writes. -/
theorem parse?_eq_some_iff {text : String} {value : Json} :
    parse? text = some value ↔ Writes text value := by
  unfold parse? Writes
  rw [Option.bind_eq_some_iff]
  constructor
  · rintro ⟨tokens, hscan, htokens⟩
    rw [ofTokens?_eq_some_iff.mp htokens] at hscan
    exact scan?_eq_some_iff.mp hscan
  · intro hlayout
    exact ⟨value.tokens, scan?_eq_some_iff.mpr hlayout, ofTokens?_eq_some_iff.mpr rfl⟩

/-- Blanks do not matter. -/
theorem parse?_eq_of_layout {lexemes : List Lexeme} {text text' : String}
    (h : Layout lexemes text.toList) (h' : Layout lexemes text'.toList) :
    parse? text = parse? text' := by
  unfold parse?
  rw [scan?_of_layout h, scan?_of_layout h']

namespace Token

/-- A token that is a word, and so has to end. -/
def isWord : Token → Bool
  | null | bool _ | number _ => true
  | _ => false

theorem spells_text (token : Token) : Spells token.text.toList token := by
  cases token with
  | beginArray => exact .mark rfl
  | endArray => exact .mark rfl
  | beginObject => exact .mark rfl
  | endObject => exact .mark rfl
  | comma => exact .mark rfl
  | colon => exact .mark rfl
  | null => exact .word (List.cons_ne_nil 'n' _) (List.all_eq_true.mp rfl) rfl
  | bool value =>
    cases value with
    | false => exact .word (List.cons_ne_nil 'f' _) (List.all_eq_true.mp rfl) rfl
    | true => exact .word (List.cons_ne_nil 't' _) (List.all_eq_true.mp rfl) rfl
  | number n =>
    exact .word n.text_ne_nil (fun _ => Number.isWordChar_of_mem_text) n.ofWord?_text
  | string t =>
    obtain ⟨body, pieces, hchars, hbody, rfl⟩ := t.exists_quoted
    have hstring := Spells.string hbody
    rwa [← hchars] at hstring

/-- A mark or a string begins with a character of no word. -/
theorem exists_text_eq_cons {token : Token} (h : token.isWord = false) :
    ∃ c rest, token.text.toList = c :: rest ∧ isWordChar c = false := by
  cases token with
  | null => cases h
  | bool value => cases h
  | number n => cases h
  | string t =>
    obtain ⟨body, pieces, hchars, -⟩ := t.exists_quoted
    exact ⟨'"', _, hchars, rfl⟩
  | _ => exact ⟨_, _, rfl, rfl⟩

/-- Of two tokens that stand side by side at most one is a word. -/
def Apart (first second : Token) : Prop := first.isWord = false ∨ second.isWord = false

theorem isChain_cons_mark {token : Token} {rest : List Token}
    (h : token.isWord = false) (hrest : rest.IsChain Apart) : (token :: rest).IsChain Apart :=
  List.isChain_cons.mpr ⟨fun _ _ => .inl h, hrest⟩

end Token

open Token (Apart isChain_cons_mark)

/-- No word is next. -/
def NoWord (tokens : List Token) : Prop := ∀ token ∈ tokens.head?, token.isWord = false

theorem isChain_cons_of_noWord (token : Token) {rest : List Token} (hnext : NoWord rest)
    (hrest : rest.IsChain Apart) : (token :: rest).IsChain Apart :=
  List.isChain_cons.mpr ⟨fun next hmem => .inr (hnext next hmem), hrest⟩

theorem noWord_cons {token : Token} (h : token.isWord = false) (rest : List Token) :
    NoWord (token :: rest) := by
  rintro next ⟨⟩
  exact h

theorem noWord_elementTokens (elements : List Json) {rest : List Token} (hnext : NoWord rest) :
    NoWord (elementTokens elements ++ rest) := by
  cases elements with
  | nil => exact hnext
  | cons element elements =>
    rw [elementTokens]
    exact noWord_cons rfl _

theorem noWord_memberTokens (members : List (Text × Json)) {rest : List Token}
    (hnext : NoWord rest) : NoWord (memberTokens members ++ rest) := by
  cases members with
  | nil => exact hnext
  | cons member members =>
    rw [memberTokens]
    exact noWord_cons rfl _

mutual

/-- No two words of a value stand side by side, nor does a word stand beside what follows. -/
theorem isChain_tokens {rest : List Token} (hnext : NoWord rest) (hrest : rest.IsChain Apart) :
    ∀ value : Json, (value.tokens ++ rest).IsChain Apart
  | .null => by
    rw [tokens]
    exact isChain_cons_of_noWord .null hnext hrest
  | .bool value => by
    rw [tokens]
    exact isChain_cons_of_noWord (.bool value) hnext hrest
  | .number n => by
    rw [tokens]
    exact isChain_cons_of_noWord (.number n) hnext hrest
  | .string text => by
    rw [tokens]
    exact isChain_cons_of_noWord (.string text) hnext hrest
  | .array [] => by
    rw [tokens]
    exact isChain_cons_mark rfl (isChain_cons_mark rfl hrest)
  | .array (element :: elements) => by
    have hend : (.endArray :: rest).IsChain Apart := isChain_cons_mark rfl hrest
    have hnoword : NoWord (.endArray :: rest) := noWord_cons rfl rest
    have helements := isChain_elementTokens hnoword hend elements
    have helement := isChain_tokens (noWord_elementTokens elements hnoword) helements element
    rw [tokens]
    simp only [List.cons_append, List.append_assoc, List.nil_append]
    exact isChain_cons_mark rfl helement
  | .object [] => by
    rw [tokens]
    exact isChain_cons_mark rfl (isChain_cons_mark rfl hrest)
  | .object ((name, value) :: members) => by
    have hend : (.endObject :: rest).IsChain Apart := isChain_cons_mark rfl hrest
    have hnoword : NoWord (.endObject :: rest) := noWord_cons rfl rest
    have hmembers := isChain_memberTokens hnoword hend members
    have hvalue := isChain_tokens (noWord_memberTokens members hnoword) hmembers value
    rw [tokens]
    simp only [List.cons_append, List.append_assoc, List.nil_append]
    exact isChain_cons_mark rfl <| isChain_cons_mark rfl <|
      isChain_cons_mark rfl hvalue

theorem isChain_elementTokens {rest : List Token} (hnext : NoWord rest)
    (hrest : rest.IsChain Apart) :
    ∀ elements : List Json, (elementTokens elements ++ rest).IsChain Apart
  | [] => by
    rw [elementTokens]
    exact hrest
  | element :: elements => by
    have helements := isChain_elementTokens hnext hrest elements
    have helement := isChain_tokens (noWord_elementTokens elements hnext) helements element
    rw [elementTokens]
    simp only [List.cons_append, List.append_assoc]
    exact isChain_cons_mark rfl helement

theorem isChain_memberTokens {rest : List Token} (hnext : NoWord rest)
    (hrest : rest.IsChain Apart) :
    ∀ members : List (Text × Json), (memberTokens members ++ rest).IsChain Apart
  | [] => by
    rw [memberTokens]
    exact hrest
  | (name, value) :: members => by
    have hmembers := isChain_memberTokens hnext hrest members
    have hvalue := isChain_tokens (noWord_memberTokens members hnext) hmembers value
    rw [memberTokens]
    simp only [List.cons_append, List.append_assoc]
    exact isChain_cons_mark rfl <| isChain_cons_mark rfl <|
      isChain_cons_mark rfl hvalue

end

/-- A token in its own characters. -/
def Lexeme.plain (token : Token) : Lexeme := ⟨token.text.toList, token, token.spells_text⟩

theorem endsBefore_of_apart {token next : Token} (h : Apart token next) (rest : List Char) :
    (Lexeme.plain token).EndsBefore (next.text.toList ++ rest) := by
  intro hword
  rcases h with htoken | hnext
  · obtain ⟨c, cs, hchars, hc⟩ := Token.exists_text_eq_cons htoken
    have hmem : c ∈ token.text.toList := hchars ▸ List.mem_cons_self
    rw [hword c hmem] at hc
    cases hc
  · obtain ⟨c, cs, hchars, hc⟩ := Token.exists_text_eq_cons hnext
    rw [hchars]
    rintro d ⟨⟩
    exact hc

theorem layout_plain {tokens : List Token} (h : tokens.IsChain Apart) :
    Layout (tokens.map Lexeme.plain) (tokens.flatMap (·.text.toList)) := by
  induction tokens with
  | nil => exact .nil
  | cons token tokens ih =>
    obtain ⟨hapart, hrest⟩ := List.isChain_cons.mp h
    have hends : (Lexeme.plain token).EndsBefore (tokens.flatMap (·.text.toList)) := by
      cases tokens with
      | nil => exact fun _ => nofun
      | cons next tokens => exact endsBefore_of_apart (hapart next rfl) _
    exact .lexeme hends (ih hrest)

/-- Every value is written by its text without blanks. -/
theorem writes_render (value : Json) : Writes value.render value := by
  have hnext : NoWord [] := nofun
  have hchain := isChain_tokens hnext .nil value
  rw [List.append_nil] at hchain
  refine ⟨value.tokens.map Lexeme.plain, ?_, ?_⟩
  · rw [List.map_map]
    exact List.map_id'' (fun _ => rfl) value.tokens
  · rw [render, String.toList_join, List.flatMap_map]
    exact layout_plain hchain

theorem parse?_render (value : Json) : parse? value.render = some value :=
  parse?_eq_some_iff.mpr (writes_render value)

end DesignChart.Json
