import Mathlib
import DesignChart.Proofs.Scalar.Order

/-!
# Exact arithmetic with NaN

A blank entry of a chart is no number. Tables with such entries are read over the rationals with
NaN added: it takes over every result that it enters, and compares with nothing. Numbers are
computed with as rationals, so that what goes wrong beside a NaN is not owed to rounding.
-/

namespace DesignChart

/-- A rational number, or NaN. -/
inductive Exact
  | number (q : ℚ)
  | nan
deriving DecidableEq

namespace Exact

/-- An operation on rationals; NaN takes over the result. -/
def lift (op : ℚ → ℚ → Exact) : Exact → Exact → Exact
  | number a, number b => op a b
  | _, _ => nan

/-- A comparison of rationals; NaN compares with nothing. -/
def Compares (r : ℚ → ℚ → Prop) : Exact → Exact → Prop
  | number a, number b => r a b
  | _, _ => False

instance (r : ℚ → ℚ → Prop) [DecidableRel r] : DecidableRel (Compares r)
  | number a, number b => inferInstanceAs (Decidable (r a b))
  | number _, nan => isFalse id
  | nan, _ => isFalse id

/-- The quotient by zero is no number. -/
instance : Scalar Exact where
  zero := number 0
  one := number 1
  add := lift fun a b => number (a + b)
  sub := lift fun a b => number (a - b)
  mul := lift fun a b => number (a * b)
  div := lift fun a b => if b = 0 then nan else number (a / b)
  le := Compares (· ≤ ·)
  lt := Compares (· < ·)
  decidableLE := inferInstanceAs (DecidableRel (Compares (· ≤ ·)))
  decidableLT := inferInstanceAs (DecidableRel (Compares (· < ·)))
  isFinite v := v ≠ nan
  isNaN v := v = nan

variable {a b c d t u : Exact}

theorem zero_eq : (0 : Exact) = number 0 := rfl

theorem one_eq : (1 : Exact) = number 1 := rfl

theorem number_add (p q : ℚ) : number p + number q = number (p + q) := rfl

theorem number_sub (p q : ℚ) : number p - number q = number (p - q) := rfl

theorem number_mul (p q : ℚ) : number p * number q = number (p * q) := rfl

theorem number_div (p : ℚ) {q : ℚ} (h : q ≠ 0) : number p / number q = number (p / q) := if_neg h

@[simp]
theorem number_le {p q : ℚ} : number p ≤ number q ↔ p ≤ q := Iff.rfl

@[simp]
theorem number_lt {p q : ℚ} : number p < number q ↔ p < q := Iff.rfl

@[simp]
theorem nan_add (a : Exact) : nan + a = nan := rfl

@[simp]
theorem add_nan (a : Exact) : a + nan = nan := by cases a <;> rfl

@[simp]
theorem nan_mul (a : Exact) : nan * a = nan := rfl

@[simp]
theorem mul_nan (a : Exact) : a * nan = nan := by cases a <;> rfl

@[simp]
theorem nan_sub (a : Exact) : nan - a = nan := rfl

@[simp]
theorem nan_div (a : Exact) : nan / a = nan := rfl

@[simp]
theorem not_nan_le : ¬ nan ≤ a := id

@[simp]
theorem not_nan_lt : ¬ nan < a := id

@[simp]
theorem not_le_nan : ¬ a ≤ nan := by cases a <;> exact id

@[simp]
theorem not_lt_nan : ¬ a < nan := by cases a <;> exact id

theorem exists_numbers_of_le (h : a ≤ b) : ∃ p q, a = number p ∧ b = number q ∧ p ≤ q := by
  cases a with
  | nan => exact absurd h not_nan_le
  | number p =>
    cases b with
    | nan => exact absurd h not_le_nan
    | number q => exact ⟨p, q, rfl, rfl, h⟩

theorem exists_number (h : Scalar.isFinite a = true) : ∃ q, a = number q := by
  cases a with
  | nan => cases h
  | number q => exact ⟨q, rfl⟩

instance : LawfulScalar Exact where
  le_trans := by
    intro a b c hab hbc
    obtain ⟨p, q, rfl, rfl, hpq⟩ := exists_numbers_of_le hab
    obtain ⟨_, r, h, rfl, hqr⟩ := exists_numbers_of_le hbc
    obtain rfl := number.inj h
    exact le_trans hpq hqr
  lt_iff_le_not_ge := by
    intro a b
    cases a with
    | nan => exact ⟨False.elim, fun h => h.1⟩
    | number p =>
      cases b with
      | nan => exact ⟨False.elim, fun h => h.1⟩
      | number q => exact lt_iff_le_not_ge (a := p)
  le_total := by
    intro a b ha hb
    cases a with
    | nan => cases ha
    | number p =>
      cases b with
      | nan => cases hb
      | number q => exact le_total p q
  isNaN_of_le := by
    intro a b h
    obtain ⟨p, q, rfl, rfl, -⟩ := exists_numbers_of_le h
    exact ⟨rfl, rfl⟩
  isNaN_of_isFinite := by
    intro a h
    obtain ⟨q, rfl⟩ := exists_number h
    rfl

theorem eq_of_le_of_le (hab : a ≤ b) (hba : b ≤ a) : a = b := by
  obtain ⟨p, q, rfl, rfl, hpq⟩ := exists_numbers_of_le hab
  exact congrArg number (le_antisymm hpq hba)

section Laws

instance : AddCommSemigroup Exact where
  add_assoc a b c := by cases a <;> cases b <;> cases c <;> simp [number_add, add_assoc]
  add_comm a b := by cases a <;> cases b <;> simp [number_add, add_comm]

instance : CommSemigroup Exact where
  mul_assoc a b c := by cases a <;> cases b <;> cases c <;> simp [number_mul, mul_assoc]
  mul_comm a b := by cases a <;> cases b <;> simp [number_mul, mul_comm]

instance : Distrib Exact where
  left_distrib a b c := by
    cases a <;> cases b <;> cases c <;> simp [number_add, number_mul, mul_add]
  right_distrib a b c := by
    cases a <;> cases b <;> cases c <;> simp [number_add, number_mul, add_mul]

end Laws

theorem blend_eq (a b t : Exact) : blend a b t = (1 - t) * a + t * b := rfl

/-- Four values can be blended along either variable first. -/
theorem blend_blend (a b c d t u : Exact) :
    blend (blend a b t) (blend c d t) u = blend (blend a c u) (blend b d u) t := by
  simp only [blend_eq, mul_add]
  rw [mul_left_comm (1 - u) (1 - t) a, mul_left_comm (1 - u) t b, mul_left_comm u (1 - t) c,
    mul_left_comm u t d, add_add_add_comm]

/-- A number with others beside it that are given no weight: it is left as it is, unless one of them
is NaN. -/
def beside (own : Exact) (others : List Exact) : Exact := if nan ∈ others then nan else own

/-- The start of a blend is given back only beside a number. -/
theorem blend_zero (a b : Exact) : blend a b 0 = a.beside [b] := by
  rw [blend_eq, zero_eq, one_eq, number_sub]
  cases a <;> cases b <;> simp [beside, number_mul, number_add]

theorem blend_one (a b : Exact) : blend a b 1 = b.beside [a] := by
  rw [blend_eq, one_eq, number_sub]
  cases a <;> cases b <;> simp [beside, number_mul, number_add]

theorem beside_beside (a b c d : Exact) :
    (a.beside [b]).beside [c.beside [d]] = a.beside [b, c, d] := by
  by_cases hb : nan = b <;> by_cases hc : nan = c <;> by_cases hd : nan = d <;>
    simp [beside, hb, hc, hd]

end Exact

end DesignChart
