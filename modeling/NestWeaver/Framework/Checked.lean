import Mathlib.Tactic.Basic

/-!
# Computations that stop at the first failed check

What a computation in `Except` has done when it ends well: every check passed, and every part of it ended
well.
-/

set_option linter.all false

namespace NestWeaver
namespace Checked

variable {ε α β : Type}

/-- Stops with an error if the condition holds. -/
def bailIf (p : Prop) [Decidable p] (error : ε) : Except ε Unit := if p then .error error else .ok ()

@[simp] lemma bailIf_eq_ok {p : Prop} [Decidable p] {error : ε} {u : Unit} :
    bailIf p error = .ok u ↔ ¬p := by
  rw [bailIf]
  by_cases hp : p
  · simp [hp]
  · simp [hp]

@[simp] lemma bind_eq_ok {x : Except ε α} {f : α → Except ε β} {b : β} :
    (x >>= f) = .ok b ↔ ∃ a, x = .ok a ∧ f a = .ok b := by
  cases x with
  | error e =>
    constructor
    · intro h
      cases h
    · rintro ⟨a, ha, -⟩
      cases ha
  | ok a =>
    constructor
    · exact fun h => ⟨a, rfl, h⟩
    · rintro ⟨a', ha, h⟩
      cases ha
      exact h

@[simp] lemma pure_eq_ok {a b : α} : (pure a : Except ε α) = .ok b ↔ a = b :=
  ⟨fun h => Except.ok.inj h, fun h => congrArg Except.ok h⟩

end Checked
end NestWeaver
