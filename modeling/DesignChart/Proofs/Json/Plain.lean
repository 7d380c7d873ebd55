import DesignChart.Json.Plain
import DesignChart.Proofs.Json.Library
import DesignChart.Proofs.Scalar.Decimals

/-!
# The plain library does what is documented of a library

The number that is written for a double has the digits of its shortest decimal, with the point
somewhere among them. The decimal is recovered from it, and the double from the decimal.
-/

namespace DesignChart.Json

namespace Number

theorem length_lastDigits (count n : Nat) : (lastDigits count n).length = count := by
  induction count generalizing n with
  | zero => rfl
  | succ count ih => rw [lastDigits, List.length_append, ih, List.length_singleton]

theorem appendDigits_append (value : Nat) (digits digits' : List (Fin 10)) :
    appendDigits value (digits ++ digits') = appendDigits (appendDigits value digits) digits' :=
  List.foldl_append

/-- A number is its last digits behind the others. -/
theorem appendDigits_lastDigits (count n : Nat) :
    appendDigits (n / 10 ^ count) (lastDigits count n) = n := by
  induction count generalizing n with
  | zero => exact Nat.div_one n
  | succ count ih =>
    have hdiv : n / 10 ^ (count + 1) = n / 10 / 10 ^ count := by
      rw [Nat.div_div_eq_div_mul, pow_succ']
    rw [lastDigits, appendDigits_append, hdiv, ih]
    exact Nat.div_add_mod n 10

/-- The point may stand anywhere. -/
theorem toDecimal_withPlaces (d : Decimal) (places : Nat) :
    (withPlaces d places).toDecimal = d := by
  obtain ⟨negative, digits, exponent⟩ := d
  have hexponent : (withPlaces ⟨negative, digits, exponent⟩ places).exponent.getD 0 =
      exponent + places := by
    unfold withPlaces
    dsimp only
    split_ifs with h
    · exact h.symm
    · rfl
  unfold toDecimal
  rw [hexponent]
  simp [withPlaces, length_lastDigits, appendDigits_lastDigits]

/-- A finite double is read back from its number. -/
theorem toFloat?_ofFloat {v : Float} (h : v.isFinite = true) : (ofFloat v).toFloat? = some v := by
  unfold toFloat? ofFloat
  rw [toDecimal_withPlaces, Decimal.toFloat_shortest h]
  exact if_pos h

end Number

namespace Library

variable {ε : Type} {names : List String} {members : List (Text × Json)}

theorem distinct_eq_true_iff : distinct names members = true ↔ Distinct names members := by
  unfold distinct Distinct Named
  simp only [Bool.and_eq_true, List.all_eq_true, decide_eq_true_eq, repeats_iff, not_le,
    List.countP_eq_length_filter]

theorem ofParts?_of_untagged {enumeration : Enumeration ε} {parts : List Part}
    (h : ∀ tag, .tag tag ∉ parts) : ofParts? enumeration parts = none := by
  unfold ofParts?
  split
  next tag => exact absurd List.mem_cons_self (h tag)
  next tag content => exact absurd List.mem_cons_self (h tag)
  next content tag => exact absurd (List.mem_cons_of_mem _ List.mem_cons_self) (h tag)
  next => rfl

theorem readEnumeration?_of_parts {enumeration : Enumeration ε} {parts : List Part}
    (h : Distinct [enumeration.tag, enumeration.content] members)
    (hparts : enumeration.parts members = parts) :
    readEnumeration? enumeration (.object members) = ofParts? enumeration parts := by
  rw [← hparts]
  exact if_pos (distinct_eq_true_iff.mpr h)

/-- The plain library keeps to what is documented. -/
theorem plain_lawful : plain.Lawful where
  parse?_eq_some_iff _ _ := Json.parse?_eq_some_iff
  writes_render := Json.writes_render
  float_of_write _ h := Number.toFloat?_ofFloat h
  float_of_buffer _ := rfl
  natural_of_write n h := if_pos (decide_eq_true h)
  natural_of_null := rfl
  option_of_null _ := rfl
  option_of_value coding json h := by
    cases json with
    | null => exact absurd rfl h
    | _ => rfl
  option_write _ _ := rfl
  record_of_object record members h := if_pos (distinct_eq_true_iff.mpr h)
  record_of_indistinct record members h := if_neg (distinct_eq_true_iff.not.mpr h)
  record_of_list record elements h := if_pos h
  record_write _ _ := rfl
  enumeration_of_tag _ _ h _ hparts := readEnumeration?_of_parts h hparts
  enumeration_of_tag_first _ _ h _ _ hparts := readEnumeration?_of_parts h hparts
  enumeration_of_content_first _ _ h _ _ hparts := readEnumeration?_of_parts h hparts
  enumeration_of_untagged _ _ h := ite_eq_right_iff.mpr fun _ => ofParts?_of_untagged h
  enumeration_of_indistinct enumeration members h := if_neg (distinct_eq_true_iff.not.mpr h)
  enumeration_of_list _ _ _ := rfl
  enumeration_of_unnamed_list enumeration tag content h := by
    cases tag with
    | string text =>
      cases text with
      | none => rfl
      | some name => exact absurd rfl (h name)
    | _ => rfl
  enumeration_write _ _ := rfl

end Library

end DesignChart.Json
