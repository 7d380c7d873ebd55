import Mathlib
import DesignChart.Error

/-!
# Success of composed checks

A table is checked step by step and the first failure ends it. These laws take a success apart
into the successes of the steps, so that no later proof opens the sequence itself. Failures of
checks blame an argument, and two runs of the same checks are compared by the argument they blame.
-/

namespace DesignChart.Outcome

variable {ε ε' β γ : Type}

theorem exists_of_isOk {x : Except ε β} (h : x.isOk = true) : ∃ b, x = .ok b := by
  cases x with
  | error e => cases h
  | ok b => exact ⟨b, rfl⟩

theorem bind_eq_ok {x : Except ε β} {f : β → Except ε γ} {c : γ} :
    (x >>= f) = .ok c ↔ ∃ b, x = .ok b ∧ f b = .ok c := by
  cases x with
  | error e => exact ⟨fun h => (by cases h), fun ⟨b, hb, _⟩ => (by cases hb)⟩
  | ok b =>
    constructor
    · intro h
      exact ⟨b, rfl, h⟩
    · rintro ⟨b', hb, h⟩
      obtain rfl := Except.ok.inj hb
      exact h

theorem map_eq_ok {x : Except ε β} {f : β → γ} {c : γ} :
    (f <$> x) = .ok c ↔ ∃ b, x = .ok b ∧ f b = c := by
  cases x with
  | error e => exact ⟨fun h => (by cases h), fun ⟨b, hb, _⟩ => (by cases hb)⟩
  | ok b =>
    constructor
    · intro h
      exact ⟨b, rfl, Except.ok.inj h⟩
    · rintro ⟨b', hb, h⟩
      obtain rfl := Except.ok.inj hb
      exact congrArg Except.ok h

theorem mapError_eq_ok {x : Except ε β} {f : ε → ε'} {b : β} :
    x.mapError f = .ok b ↔ x = .ok b := by
  cases x with
  | error e => exact ⟨fun h => (by cases h), fun h => (by cases h)⟩
  | ok b' => exact ⟨fun h => congrArg Except.ok (Except.ok.inj h), fun h => by rw [h]; rfl⟩

theorem blame_eq_ok {α : Type} {argument : String} {x : Except (Fault α) β} {b : β} :
    blame argument x = .ok b ↔ x = .ok b := mapError_eq_ok

theorem mapError_map (f : ε → ε') (g : β → γ) (x : Except ε β) :
    (g <$> x).mapError f = g <$> x.mapError f := by
  cases x <;> rfl

theorem mapM_map {δ : Type} (f : β → Except ε γ) (g : γ → δ) (inputs : List β) :
    inputs.mapM (fun b => g <$> f b) = List.map g <$> inputs.mapM f := by
  induction inputs with
  | nil => rfl
  | cons b rest ih =>
    rw [List.mapM_cons, List.mapM_cons, ih]
    cases f b with
    | error e => rfl
    | ok c => cases rest.mapM f <;> rfl

theorem mapM_congr {f g : β → Except ε γ} {inputs : List β} (h : ∀ b ∈ inputs, f b = g b) :
    inputs.mapM f = inputs.mapM g := by
  induction inputs with
  | nil => rfl
  | cons b rest ih =>
    obtain ⟨hfirst, hrest⟩ := List.forall_mem_cons.mp h
    rw [List.mapM_cons, List.mapM_cons, hfirst, ih hrest]

/-- A list is mapped successfully entry by entry. -/
theorem mapM_eq_ok {f : β → Except ε γ} {inputs : List β} {outputs : List γ} :
    inputs.mapM f = .ok outputs ↔ List.Forall₂ (fun b c => f b = .ok c) inputs outputs := by
  induction inputs generalizing outputs with
  | nil =>
    rw [List.mapM_nil, List.forall₂_nil_left_iff]
    exact ⟨fun h => (Except.ok.inj h).symm, fun h => congrArg Except.ok h.symm⟩
  | cons b rest ih =>
    rw [List.mapM_cons, List.forall₂_cons_left_iff, bind_eq_ok]
    constructor
    · rintro ⟨c, hc, h⟩
      obtain ⟨cs, hcs, h⟩ := bind_eq_ok.mp h
      exact ⟨c, cs, hc, ih.mp hcs, (Except.ok.inj h).symm⟩
    · rintro ⟨c, cs, hc, hcs, rfl⟩
      exact ⟨c, hc, bind_eq_ok.mpr ⟨cs, ih.mpr hcs, rfl⟩⟩

/-- A list is mapped up to the first entry that fails. -/
theorem first_of_mapM_eq_error {f : β → Except ε γ} {inputs : List β} {e : ε}
    (h : inputs.mapM f = .error e) :
    ∃ before b after, inputs = before ++ b :: after ∧ (∀ a ∈ before, ∃ c, f a = .ok c) ∧
      f b = .error e := by
  induction inputs with
  | nil => cases h
  | cons a rest ih =>
    rw [List.mapM_cons] at h
    cases ha : f a with
    | error e' =>
      rw [ha] at h
      obtain rfl := Except.error.inj h
      exact ⟨[], a, rest, rfl, nofun, ha⟩
    | ok c =>
      have hrest : rest.mapM f = .error e := by
        cases hr : rest.mapM f with
        | error e' =>
          rw [ha, hr] at h
          exact congrArg _ (Except.error.inj h)
        | ok cs =>
          rw [ha, hr] at h
          cases h
      obtain ⟨before, b, after, rfl, hbefore, hb⟩ := ih hrest
      exact ⟨a :: before, b, after, rfl, List.forall_mem_cons.mpr ⟨⟨c, ha⟩, hbefore⟩, hb⟩

/-- Every error is one that `P` allows. -/
def FailsOnly (P : ε → Prop) (x : Except ε β) : Prop := ∀ e, x = .error e → P e

section FailsOnly

variable {P : ε → Prop}

theorem FailsOnly.ok (b : β) : FailsOnly P (.ok b) := nofun

theorem FailsOnly.error {e : ε} (he : P e) : FailsOnly P (.error e : Except ε β) := by
  intro e' he'
  obtain rfl := Except.error.inj he'
  exact he

/-- A later step needs to be looked at for what the earlier one gives only. -/
theorem FailsOnly.bind_of_ok {x : Except ε β} {f : β → Except ε γ} (hx : FailsOnly P x)
    (hf : ∀ b, x = .ok b → FailsOnly P (f b)) : FailsOnly P (x >>= f) := by
  cases x with
  | error e => exact .error (hx e rfl)
  | ok b => exact hf b rfl

theorem FailsOnly.bind {x : Except ε β} {f : β → Except ε γ} (hx : FailsOnly P x)
    (hf : ∀ b, FailsOnly P (f b)) : FailsOnly P (x >>= f) :=
  hx.bind_of_ok fun b _ => hf b

theorem FailsOnly.map {x : Except ε β} (hx : FailsOnly P x) (f : β → γ) :
    FailsOnly P (f <$> x) := by
  cases x with
  | error e => exact .error (hx e rfl)
  | ok b => exact .ok (f b)

theorem FailsOnly.mapError {P' : ε' → Prop} {x : Except ε β} {f : ε → ε'} (hx : FailsOnly P x)
    (hf : ∀ e, P e → P' (f e)) : FailsOnly P' (x.mapError f) := by
  cases x with
  | error e => exact .error (hf e (hx e rfl))
  | ok b => exact .ok b

theorem FailsOnly.mapM {f : β → Except ε γ} (inputs : List β) (hf : ∀ b, FailsOnly P (f b)) :
    FailsOnly P (inputs.mapM f) := by
  induction inputs with
  | nil => exact .ok []
  | cons b rest ih =>
    rw [List.mapM_cons]
    exact (hf b).bind fun c => ih.bind fun cs => .ok (c :: cs)

end FailsOnly

section Blame

variable {α : Type}

/-- Every error says that an argument is at fault. -/
abbrev Blaming (x : Except (Error α) β) : Prop :=
  FailsOnly (fun e => ∃ argument fault, e = .shape argument fault) x

theorem Blaming.blame (argument : String) (x : Except (Fault α) β) : Blaming (blame argument x) := by
  cases x with
  | ok b => exact .ok b
  | error fault => exact .error ⟨argument, fault, rfl⟩

theorem Blaming.inRow {x : Except (Error α) β} (hx : Blaming x) (row : Nat) :
    Blaming (x.mapError (Error.inRow row)) :=
  hx.mapError fun _ ⟨argument, fault, h⟩ => ⟨argument, .inRow row fault, congrArg _ h⟩

/-- Both runs succeed with related results, or both blame the same argument. -/
inductive BlameAlike (R : β → γ → Prop) : Except (Error α) β → Except (Error α) γ → Prop
  | accepted {b : β} {c : γ} (h : R b c) : BlameAlike R (.ok b) (.ok c)
  | refused (argument : String) (fault other : Fault α) :
      BlameAlike R (.error (.shape argument fault)) (.error (.shape argument other))

theorem Blaming.alike {x : Except (Error α) β} (hx : Blaming x) : BlameAlike Eq x x := by
  cases x with
  | ok b => exact .accepted rfl
  | error e =>
    obtain ⟨argument, fault, rfl⟩ := hx e rfl
    exact .refused argument fault fault

theorem BlameAlike.of_ok {R : β → γ → Prop} {x : Except (Error α) β} {y : Except (Error α) γ} {b : β}
    (h : BlameAlike R x y) (hx : x = .ok b) : ∃ c, y = .ok c ∧ R b c := by
  cases h with
  | accepted hbc =>
    obtain rfl := Except.ok.inj hx
    exact ⟨_, rfl, hbc⟩
  | refused argument fault other => cases hx

theorem BlameAlike.bind {β' γ' : Type} {R : β → γ → Prop} {S : β' → γ' → Prop}
    {x : Except (Error α) β} {y : Except (Error α) γ} {f : β → Except (Error α) β'}
    {g : γ → Except (Error α) γ'} (h : BlameAlike R x y)
    (hnext : ∀ b c, R b c → BlameAlike S (f b) (g c)) : BlameAlike S (x >>= f) (y >>= g) := by
  cases h with
  | accepted hbc => exact hnext _ _ hbc
  | refused argument fault other => exact .refused argument fault other

end Blame

end DesignChart.Outcome
