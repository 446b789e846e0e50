import Mathlib.Data.List.Perm.Basic
import Mathlib.Data.List.Sort
import NestWeaver.Framework.Iteration

/-!
# Sorting what is visited in some order

A stable sort puts elements that differ in the order into places of their own, and leaves those that are
tied as it finds them.  So the result does not depend on the order in which the elements come exactly if
no two of them are tied (`insertionSort_perm_append`, `exists_insertionSort_swap`).
-/

set_option linter.all false

namespace NestWeaver
namespace StableSort

variable {α : Type} {r : α → α → Prop} [DecidableRel r]

/-- Neither is before the other one. -/
def Tied (r : α → α → Prop) (x y : α) : Prop := r x y ∧ r y x

section

variable [Std.Total r] [IsTrans α r] {x y : α} {xs ys rest : List α}

/-- Elements that are not tied may be inserted one before the other. -/
lemma orderedInsert_comm (h : ¬Tied r x y) (xs : List α) :
    (xs.orderedInsert r y).orderedInsert r x = (xs.orderedInsert r x).orderedInsert r y := by
  induction xs with
  | nil =>
    by_cases hxy : r x y
    · have hyx : ¬r y x := fun hyx => h ⟨hxy, hyx⟩
      simp [hxy, hyx]
    · have hyx : r y x := (Std.Total.total x y).resolve_left hxy
      simp [hxy, hyx]
  | cons b xs ih =>
    by_cases hxb : r x b
    · by_cases hyb : r y b
      · by_cases hxy : r x y
        · have hyx : ¬r y x := fun hyx => h ⟨hxy, hyx⟩
          simp [hxb, hyb, hxy, hyx]
        · have hyx : r y x := (Std.Total.total x y).resolve_left hxy
          simp [hxb, hyb, hxy, hyx]
      · have hyx : ¬r y x := fun hyx => hyb (IsTrans.trans y x b hyx hxb)
        simp [hxb, hyb, hyx]
    · by_cases hyb : r y b
      · have hxy : ¬r x y := fun hxy => hxb (IsTrans.trans x y b hxy hyb)
        simp [hxb, hyb, hxy]
      · simp [hxb, hyb, ih]

/-- Elements no two of which are tied may come in any order. -/
lemma insertionSort_perm_append (hperm : xs.Perm ys)
    (h : ∀ x ∈ xs, ∀ y ∈ xs, x ≠ y → ¬Tied r x y) :
    (xs ++ rest).insertionSort r = (ys ++ rest).insertionSort r := by
  simp only [List.insertionSort, List.foldr_append]
  refine hperm.foldr_eq' (fun x hx y hy zs => ?_) _
  by_cases hxy : x = y
  · subst hxy
    rfl
  · exact (orderedInsert_comm (h x hx y hy hxy) zs).symm

omit [Std.Total r] in
/-- Two tied elements stand next to each other, in the order in which they have come. -/
lemma exists_insertionSort_swap (h : Tied r x y) (rest : List α) :
    ∃ front back, (x :: y :: rest).insertionSort r = front ++ x :: y :: back ∧
      (y :: x :: rest).insertionSort r = front ++ y :: x :: back := by
  simp only [List.insertionSort_cons]
  obtain ⟨hxy, hyx⟩ := h
  generalize rest.insertionSort r = zs
  induction zs with
  | nil => exact ⟨[], [], by simp [hxy], by simp [hyx]⟩
  | cons b zs ih =>
    by_cases hyb : r y b
    · have hxb : r x b := IsTrans.trans x y b hxy hyb
      exact ⟨[], b :: zs, by simp [hyb, hxy], by simp [hxb, hyx]⟩
    · have hxb : ¬r x b := fun hxb => hyb (IsTrans.trans y x b hyx hxb)
      obtain ⟨front, back, hleft, hright⟩ := ih
      exact ⟨b :: front, back, by simp [hyb, hxb, hleft], by simp [hyb, hxb, hright]⟩

end

end StableSort

/-! ## Orders that bring elements to the front -/

namespace Iteration

variable {α : Type} {xs : List α} {x y : α}

/-- First the element at an index. -/
def first (i : ℕ) : Iteration where
  visit xs := (xs[i]?).toList ++ xs.eraseIdx i
  perm xs := by
    cases h : xs[i]? with
    | none => simp [List.eraseIdx_of_length_le (List.getElem?_eq_none_iff.mp h)]
    | some x =>
      obtain ⟨hi, rfl⟩ := List.getElem?_eq_some_iff.mp h
      simpa using List.getElem_cons_eraseIdx_perm hi

/-- One order after the other. -/
def after (order order' : Iteration) : Iteration :=
  ⟨fun xs => order.visit (order'.visit xs), fun xs => (order.perm _).trans (order'.perm xs)⟩

lemma visit_first {i : ℕ} (hx : xs[i]? = some x) : (first i).visit xs = x :: xs.eraseIdx i := by
  simp [first, hx]

/-- Two different elements can be visited first, in either order. -/
lemma exists_visit_front (hx : x ∈ xs) (hy : y ∈ xs) (hne : x ≠ y) :
    ∃ (order order' : Iteration) (rest : List α),
      order.visit xs = x :: y :: rest ∧ order'.visit xs = y :: x :: rest := by
  obtain ⟨i, hi⟩ := List.mem_iff_getElem?.mp hx
  have hperm := (first i).perm xs
  rw [visit_first hi] at hperm
  have hy' : y ∈ xs.eraseIdx i := by
    obtain heq | hmem := List.mem_cons.mp (hperm.mem_iff.mpr hy)
    · exact absurd heq.symm hne
    · exact hmem
  obtain ⟨j, hj⟩ := List.mem_iff_getElem?.mp hy'
  have hboth : ((first (j + 1)).after (first i)).visit xs = y :: x :: (xs.eraseIdx i).eraseIdx j := by
    rw [after]
    simp only [visit_first hi]
    rw [visit_first (by simpa using hj)]
    rfl
  refine ⟨(first 1).after ((first (j + 1)).after (first i)), (first (j + 1)).after (first i), _, ?_, hboth⟩
  rw [after]
  simp only [hboth]
  rw [visit_first rfl]
  rfl

end Iteration
end NestWeaver
