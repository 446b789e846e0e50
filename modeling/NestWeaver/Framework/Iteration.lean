import Mathlib.Data.List.Basic

/-!
# Orders of iteration

A hash container visits its elements in an order that nothing promises.
-/

set_option linter.all false

namespace NestWeaver

/-- How containers are visited: in any order, and each element once. -/
structure Iteration where
  visit {α : Type} : List α → List α
  perm {α : Type} (xs : List α) : (visit xs).Perm xs

namespace Iteration

/-- In the order of the list. -/
def inOrder : Iteration := ⟨id, fun _ => .rfl⟩

/-- In the opposite order. -/
def backwards : Iteration := ⟨List.reverse, List.reverse_perm⟩

variable (order : Iteration) {α : Type} {xs : List α} {x : α}

@[simp] lemma mem_visit : x ∈ order.visit xs ↔ x ∈ xs := (order.perm xs).mem_iff

lemma nodup_visit : (order.visit xs).Nodup ↔ xs.Nodup := (order.perm xs).nodup_iff

end Iteration
end NestWeaver
