import Mathlib.Tactic.Common

/-!
# Loads

A load reads a value several times, and what it asks next may depend on what it has read.  While the
value changes, the reads of one load may see different values.  A load that has come so far agrees,
on the values that its reads have all seen, with the load it started as (`AgreesOn.read`).
-/

set_option linter.all false

namespace NestWeaver

/-- A computation that reads a value of type `γ` from time to time. -/
inductive Load (γ ρ : Type)
  | done (result : ρ)
  | read (next : γ → Load γ ρ)

namespace Load

variable {γ ρ : Type}

/-- The result if every read sees the same value. -/
def eval (value : γ) : Load γ ρ → ρ
  | .done result => result
  | .read next => (next value).eval value

/-- On these values two loads have the same result. -/
def AgreesOn (P : γ → Prop) (load load' : Load γ ρ) : Prop :=
  ∀ value, P value → load.eval value = load'.eval value

variable {P Q : γ → Prop} {load : Load γ ρ}

lemma AgreesOn.refl (load : Load γ ρ) : load.AgreesOn P load := fun _ _ => rfl

lemma AgreesOn.mono {load' : Load γ ρ} (h : load.AgreesOn P load') (hQ : ∀ value, Q value → P value) :
    load.AgreesOn Q load' :=
  fun value hvalue => h value (hQ value hvalue)

/-- A read leaves a load that agrees on the value it saw. -/
lemma AgreesOn.read {next : γ → Load γ ρ} {value : γ} (h : (Load.read next).AgreesOn P load)
    (hP : ∀ value', P value' → value' = value) : (next value).AgreesOn P load := by
  intro value' hvalue'
  rw [← h value' hvalue', hP value' hvalue']
  rfl

end Load
end NestWeaver
