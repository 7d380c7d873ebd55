import Mathlib
import DesignChart.Json.Reader

/-!
# The reader takes the tokens of a value, and nothing else

At every moment the tokens taken so far can be told from what the reader keeps: those of the open
arrays and objects, with the values they hold already and the commas between. One step adds the
token it takes. A reader that is finished has therefore taken exactly the tokens of its value, and
the other way round the tokens of a value bring a reader to that value, part by part.
-/

namespace DesignChart.Json

/-- The tokens of elements, a comma between any two. -/
def joinedElements : List Json → List Token
  | [] => []
  | element :: rest => element.tokens ++ elementTokens rest

/-- The tokens of members, a comma between any two. -/
def joinedMembers : List (Text × Json) → List Token
  | [] => []
  | (name, value) :: rest => .string name :: .colon :: value.tokens ++ memberTokens rest

/-- The comma that is due before the next value. -/
def separator {β : Type} : List β → List Token
  | [] => []
  | _ => [.comma]

theorem tokens_array (elements : List Json) :
    (array elements).tokens = .beginArray :: (joinedElements elements ++ [.endArray]) := by
  cases elements with
  | nil => simp [tokens, joinedElements]
  | cons element rest => simp [tokens, joinedElements]

theorem tokens_object (members : List (Text × Json)) :
    (object members).tokens = .beginObject :: (joinedMembers members ++ [.endObject]) := by
  cases members with
  | nil => simp [tokens, joinedMembers]
  | cons member rest => simp [tokens, joinedMembers]

theorem elementTokens_concat (elements : List Json) (element : Json) :
    elementTokens (elements ++ [element]) = elementTokens elements ++ .comma :: element.tokens := by
  induction elements with
  | nil => simp [elementTokens]
  | cons first rest ih => simp [elementTokens, ih]

theorem memberTokens_concat (members : List (Text × Json)) (name : Text) (value : Json) :
    memberTokens (members ++ [(name, value)]) =
      memberTokens members ++ .comma :: .string name :: .colon :: value.tokens := by
  induction members with
  | nil => simp [memberTokens]
  | cons first rest ih => simp [memberTokens, ih]

theorem joinedElements_concat (elements : List Json) (element : Json) :
    joinedElements (elements ++ [element]) =
      joinedElements elements ++ separator elements ++ element.tokens := by
  cases elements with
  | nil => simp [joinedElements, elementTokens, separator]
  | cons first rest => simp [joinedElements, elementTokens_concat, separator]

theorem joinedMembers_concat (members : List (Text × Json)) (name : Text) (value : Json) :
    joinedMembers (members ++ [(name, value)]) =
      joinedMembers members ++ separator members ++ .string name :: .colon :: value.tokens := by
  cases members with
  | nil => simp [joinedMembers, memberTokens, separator]
  | cons first rest => simp [joinedMembers, memberTokens_concat, separator]

theorem separator_reverse {β : Type} (items : List β) :
    separator items.reverse = separator items := by
  cases items with
  | nil => rfl
  | cons first rest => cases h : (first :: rest).reverse <;> simp_all [separator]

/-- The tokens taken for an array or object that is open before its next value. -/
def Frame.tokens : Frame → List Token
  | .array done => .beginArray :: (joinedElements done.reverse ++ separator done)
  | .object done name =>
    .beginObject :: (joinedMembers done.reverse ++ separator done ++ [.string name, .colon])

/-- The tokens taken for all that is open, the innermost first in the stack and last in the text. -/
def stackTokens (stack : List Frame) : List Token := stack.reverse.flatMap Frame.tokens

@[simp]
theorem stackTokens_cons (frame : Frame) (stack : List Frame) :
    stackTokens (frame :: stack) = stackTokens stack ++ frame.tokens := by
  simp [stackTokens]

namespace Reader

/-- The tokens taken so far. -/
def consumed : Reader → List Token
  | anyValue stack => stackTokens stack
  | arrayStart stack => stackTokens stack ++ [.beginArray]
  | arrayNext stack done => stackTokens stack ++ .beginArray :: joinedElements done.reverse
  | objectStart stack => stackTokens stack ++ [.beginObject]
  | objectName stack done =>
    stackTokens stack ++ .beginObject :: (joinedMembers done.reverse ++ [.comma])
  | objectColon stack done name =>
    stackTokens stack ++
      .beginObject :: (joinedMembers done.reverse ++ separator done ++ [.string name])
  | objectNext stack done => stackTokens stack ++ .beginObject :: joinedMembers done.reverse
  | finished value => value.tokens

/-- What is open after a value holds at least one. -/
def Underway : Reader → Prop
  | arrayNext _ done => done ≠ []
  | objectName _ done => done ≠ []
  | objectNext _ done => done ≠ []
  | _ => True

theorem underway_deliver (stack : List Frame) (value : Json) : (deliver stack value).Underway := by
  cases stack with
  | nil => trivial
  | cons frame stack => cases frame <;> simp [deliver, Underway]

theorem consumed_deliver (stack : List Frame) (value : Json) :
    (deliver stack value).consumed = stackTokens stack ++ value.tokens := by
  cases stack with
  | nil => simp [deliver, consumed, stackTokens]
  | cons frame stack =>
    cases frame with
    | array done =>
      simp [deliver, consumed, Frame.tokens, joinedElements_concat, separator_reverse]
    | object done name =>
      simp [deliver, consumed, Frame.tokens, joinedMembers_concat, separator_reverse]

/-- The reader keeps to what is meant, and has taken the tokens `tokens`. -/
structure Took (reader : Reader) (tokens : List Token) : Prop where
  underway : reader.Underway
  consumed_eq : reader.consumed = tokens

theorem took_deliver {stack : List Frame} {value : Json} {tokens : List Token}
    (h : stackTokens stack ++ value.tokens = tokens) : (deliver stack value).Took tokens :=
  ⟨underway_deliver stack value, (consumed_deliver stack value).trans h⟩

theorem took_begin? {stack : List Frame} {token : Token} {reader : Reader}
    (h : begin? stack token = some reader) : reader.Took (stackTokens stack ++ [token]) := by
  cases token with
  | null => exact Option.some.inj h ▸ took_deliver (by rw [Json.tokens])
  | bool value => exact Option.some.inj h ▸ took_deliver (by rw [Json.tokens])
  | number n => exact Option.some.inj h ▸ took_deliver (by rw [Json.tokens])
  | string text => exact Option.some.inj h ▸ took_deliver (by rw [Json.tokens])
  | beginArray => exact Option.some.inj h ▸ ⟨trivial, rfl⟩
  | beginObject => exact Option.some.inj h ▸ ⟨trivial, rfl⟩
  | endArray => cases h
  | endObject => cases h
  | comma => cases h
  | colon => cases h

/-- The first token of an array is its end, or the first of an element. -/
theorem step?_arrayStart (stack : List Frame) {token : Token} (h : token ≠ .endArray) :
    step? (arrayStart stack) token = begin? (.array [] :: stack) token := by
  cases token with
  | endArray => exact absurd rfl h
  | _ => rfl

/-- A step takes one token. -/
theorem took_step? {reader next : Reader} {token : Token} (hu : reader.Underway)
    (h : reader.step? token = some next) : next.Took (reader.consumed ++ [token]) := by
  fun_cases step? reader token with
  | case1 stack token => exact took_begin? h
  | case2 stack =>
    obtain rfl := Option.some.inj h
    refine took_deliver ?_
    simp [consumed, tokens_array, joinedElements]
  | case3 stack token hend =>
    have htook := took_begin? ((step?_arrayStart stack hend).symm.trans h)
    rw [stackTokens_cons] at htook
    exact htook
  | case4 stack done =>
    obtain rfl := Option.some.inj h
    refine ⟨trivial, ?_⟩
    cases done with
    | nil => exact absurd rfl hu
    | cons first rest => simp [consumed, Frame.tokens, separator]
  | case5 stack done =>
    obtain rfl := Option.some.inj h
    refine took_deliver ?_
    simp [consumed, tokens_array]
  | case6 stack =>
    obtain rfl := Option.some.inj h
    refine took_deliver ?_
    simp [consumed, tokens_object, joinedMembers]
  | case7 stack name =>
    obtain rfl := Option.some.inj h
    refine ⟨trivial, ?_⟩
    simp [consumed, joinedMembers, separator]
  | case8 stack done name =>
    obtain rfl := Option.some.inj h
    refine ⟨trivial, ?_⟩
    cases done with
    | nil => exact absurd rfl hu
    | cons first rest => simp [consumed, separator]
  | case9 stack done name =>
    obtain rfl := Option.some.inj h
    refine ⟨trivial, ?_⟩
    simp [consumed, Frame.tokens]
  | case10 stack done =>
    obtain rfl := Option.some.inj h
    refine ⟨hu, ?_⟩
    simp [consumed]
  | case11 stack done =>
    obtain rfl := Option.some.inj h
    refine took_deliver ?_
    simp [consumed, tokens_object]
  | case12 =>
    rw [step?] at h
    · cases h
    all_goals assumption

/-- A run takes its tokens one after the other. -/
theorem took_run {reader next : Reader} {tokens : List Token} (hu : reader.Underway)
    (h : tokens.foldlM step? reader = some next) : next.Took (reader.consumed ++ tokens) := by
  induction tokens generalizing reader with
  | nil =>
    obtain rfl := Option.some.inj h
    exact ⟨hu, (List.append_nil _).symm⟩
  | cons token tokens ih =>
    rw [List.foldlM_cons] at h
    obtain ⟨middle, hstep, hrest⟩ := Option.bind_eq_some_iff.mp h
    have hmiddle := took_step? hu hstep
    have htook := ih hmiddle.underway hrest
    rwa [hmiddle.consumed_eq, List.append_assoc, List.singleton_append] at htook

end Reader

theorem eq_tokens_of_ofTokens? {tokens : List Token} {value : Json}
    (h : ofTokens? tokens = some value) : tokens = value.tokens := by
  obtain ⟨reader, hrun, hresult⟩ := Option.bind_eq_some_iff.mp h
  have hstart : (Reader.anyValue []).Underway := trivial
  have htook := Reader.took_run hstart hrun
  cases reader with
  | finished found =>
    obtain rfl := Option.some.inj hresult
    exact htook.consumed_eq.symm
  | _ => cases hresult

open Reader

theorem exists_first_token (value : Json) :
    ∃ token rest, value.tokens = token :: rest ∧ token ≠ .endArray := by
  cases value with
  | null => exact ⟨.null, [], by rw [tokens], nofun⟩
  | bool value => exact ⟨.bool value, [], by rw [tokens], nofun⟩
  | number n => exact ⟨.number n, [], by rw [tokens], nofun⟩
  | string text => exact ⟨.string text, [], by rw [tokens], nofun⟩
  | array elements => exact ⟨.beginArray, _, tokens_array elements, nofun⟩
  | object members => exact ⟨.beginObject, _, tokens_object members, nofun⟩

/-- The first element of an array is read like any value in it. -/
theorem run_first_element (stack : List Frame) (value : Json) :
    value.tokens.foldlM step? (arrayStart stack) =
      value.tokens.foldlM step? (anyValue (.array [] :: stack)) := by
  obtain ⟨token, rest, htokens, hend⟩ := exists_first_token value
  rw [htokens, List.foldlM_cons, List.foldlM_cons, step?_arrayStart stack hend]
  rfl

mutual

/-- The tokens of a value bring the reader to where the value is complete. -/
theorem run_tokens (stack : List Frame) :
    ∀ value : Json, value.tokens.foldlM step? (anyValue stack) = some (deliver stack value)
  | .null => by rw [tokens]; rfl
  | .bool _ => by rw [tokens]; rfl
  | .number _ => by rw [tokens]; rfl
  | .string _ => by rw [tokens]; rfl
  | .array [] => by rw [tokens]; rfl
  | .array (element :: rest) => by
    have helement := run_tokens (.array [] :: stack) element
    have hrest := run_elementTokens stack [element] rest
    rw [← run_first_element] at helement
    rw [tokens, List.cons_append, List.cons_append, List.foldlM_cons]
    change (element.tokens ++ elementTokens rest ++ [Token.endArray]).foldlM step?
      (arrayStart stack) = _
    rw [List.foldlM_append, List.foldlM_append, helement]
    change ((elementTokens rest).foldlM step? (arrayNext stack [element])).bind _ = _
    rw [hrest]
    simp [step?]
  | .object [] => by rw [tokens]; rfl
  | .object ((name, value) :: rest) => by
    have hvalue := run_tokens (.object [] name :: stack) value
    have hrest := run_memberTokens stack [(name, value)] rest
    rw [tokens]
    change (value.tokens ++ memberTokens rest ++ [Token.endObject]).foldlM step?
      (anyValue (.object [] name :: stack)) = _
    rw [List.foldlM_append, List.foldlM_append, hvalue]
    change ((memberTokens rest).foldlM step? (objectNext stack [(name, value)])).bind _ = _
    rw [hrest]
    simp [step?]

theorem run_elementTokens (stack : List Frame) (done : List Json) :
    ∀ elements : List Json, (elementTokens elements).foldlM step? (arrayNext stack done) =
      some (arrayNext stack (elements.reverse ++ done))
  | [] => by rw [elementTokens]; rfl
  | element :: rest => by
    have helement := run_tokens (.array done :: stack) element
    have hrest := run_elementTokens stack (element :: done) rest
    rw [elementTokens]
    change (element.tokens ++ elementTokens rest).foldlM step? (anyValue (.array done :: stack)) = _
    rw [List.foldlM_append, helement]
    refine hrest.trans ?_
    simp

theorem run_memberTokens (stack : List Frame) (done : List (Text × Json)) :
    ∀ members : List (Text × Json), (memberTokens members).foldlM step? (objectNext stack done) =
      some (objectNext stack (members.reverse ++ done))
  | [] => by rw [memberTokens]; rfl
  | (name, value) :: rest => by
    have hvalue := run_tokens (.object done name :: stack) value
    have hrest := run_memberTokens stack ((name, value) :: done) rest
    rw [memberTokens]
    change (value.tokens ++ memberTokens rest).foldlM step?
      (anyValue (.object done name :: stack)) = _
    rw [List.foldlM_append, hvalue]
    refine hrest.trans ?_
    simp

end

/-- The tokens of a value are read as that value, and no others are. -/
theorem ofTokens?_eq_some_iff {tokens : List Token} {value : Json} :
    ofTokens? tokens = some value ↔ tokens = value.tokens := by
  constructor
  · exact eq_tokens_of_ofTokens?
  · rintro rfl
    unfold ofTokens?
    rw [run_tokens]
    rfl

end DesignChart.Json
