import Mathlib.Data.List.Basic
import Mathlib.Order.Bounds.Basic

/-!
# Edit distance

The distance of two sequences is the least number of insertions, deletions and substitutions that turn one
into the other (`Edits`).  It is computed from the front (`levenshtein`, `isLeast_levenshtein`).

A sequence cannot be turned into another one with fewer edits than the part behind some of its front can be
turned into a part behind some of the front of the other (`exists_suffix_le`).
-/

set_option linter.all false

namespace NestWeaver
namespace EditDistance

variable {α : Type*}

/-- One insertion, deletion or substitution. -/
inductive Edit : List α → List α → Prop
  | insert (front : List α) (x : α) (back : List α) : Edit (front ++ back) (front ++ x :: back)
  | delete (front : List α) (x : α) (back : List α) : Edit (front ++ x :: back) (front ++ back)
  | substitute (front : List α) (x y : α) (back : List α) :
      Edit (front ++ x :: back) (front ++ y :: back)

/-- So many edits turn one sequence into the other. -/
inductive Edits : ℕ → List α → List α → Prop
  | refl (xs : List α) : Edits 0 xs xs
  | step {n : ℕ} {xs ys zs : List α} : Edit xs ys → Edits n ys zs → Edits (n + 1) xs zs

variable {x y : α} {xs ys zs front : List α} {m n : ℕ}

/-! ## Sequences of edits -/

lemma Edit.append_left (h : Edit xs ys) (front : List α) : Edit (front ++ xs) (front ++ ys) := by
  cases h with
  | insert front' x back =>
    rw [← List.append_assoc, ← List.append_assoc]
    exact .insert (front ++ front') x back
  | delete front' x back =>
    rw [← List.append_assoc, ← List.append_assoc]
    exact .delete (front ++ front') x back
  | substitute front' x y back =>
    rw [← List.append_assoc, ← List.append_assoc]
    exact .substitute (front ++ front') x y back

lemma Edit.reverse (h : Edit xs ys) : Edit xs.reverse ys.reverse := by
  cases h with
  | insert front x back =>
    have h := Edit.insert back.reverse x front.reverse
    simpa using h
  | delete front x back =>
    have h := Edit.delete back.reverse x front.reverse
    simpa using h
  | substitute front x y back =>
    have h := Edit.substitute back.reverse x y front.reverse
    simpa using h

lemma Edits.append_left (h : Edits n xs ys) (front : List α) : Edits n (front ++ xs) (front ++ ys) := by
  induction h with
  | refl xs => exact .refl _
  | step hedit _ ih => exact .step (hedit.append_left front) ih

lemma Edits.reverse (h : Edits n xs ys) : Edits n xs.reverse ys.reverse := by
  induction h with
  | refl xs => exact .refl _
  | step hedit _ ih => exact .step hedit.reverse ih

lemma edits_reverse : Edits n xs.reverse ys.reverse ↔ Edits n xs ys := by
  constructor
  · intro h
    simpa using h.reverse
  · exact Edits.reverse

lemma edits_to_nil (xs : List α) : Edits xs.length xs [] := by
  induction xs with
  | nil => exact .refl _
  | cons x xs ih => exact .step (.delete [] x xs) ih

lemma Edits.trans (h : Edits m xs ys) (h' : Edits n ys zs) : Edits (m + n) xs zs := by
  induction h with
  | refl xs => rwa [Nat.zero_add]
  | step hedit _ ih =>
    rw [Nat.add_right_comm]
    exact .step hedit (ih h')

lemma edits_from_nil (ys : List α) : Edits ys.length [] ys := by
  induction ys with
  | nil => exact .refl _
  | cons y ys ih => exact (ih.append_left []).trans (.step (.insert [] y ys) (.refl _))

/-! ## The distance -/

variable [DecidableEq α]

/-- One character against another. -/
def mismatch (x y : α) : ℕ := if x = y then 0 else 1

/-- The distances from a sequence with one character more. -/
def extend (x : α) (distance : List α → ℕ) : List α → ℕ
  | [] => distance [] + 1
  | y :: ys =>
    min (min (distance ys + mismatch x y) (distance (y :: ys) + 1)) (extend x distance ys + 1)

def levenshtein : List α → List α → ℕ
  | [] => List.length
  | x :: xs => extend x (levenshtein xs)

lemma mismatch_le (x y : α) : mismatch x y ≤ 1 := by
  rw [mismatch]
  split_ifs <;> omega

@[simp] lemma levenshtein_nil_left (ys : List α) : levenshtein [] ys = ys.length := rfl

@[simp] lemma levenshtein_nil_right (xs : List α) : levenshtein xs [] = xs.length := by
  induction xs with
  | nil => rfl
  | cons x xs ih => exact congrArg (· + 1) ih

lemma levenshtein_cons_cons (x : α) (xs : List α) (y : α) (ys : List α) :
    levenshtein (x :: xs) (y :: ys) =
      min (min (levenshtein xs ys + mismatch x y) (levenshtein xs (y :: ys) + 1))
        (levenshtein (x :: xs) ys + 1) := rfl

/-- The last edit of a best sequence. -/
lemma levenshtein_cons_cons_cases (x : α) (xs : List α) (y : α) (ys : List α) :
    levenshtein (x :: xs) (y :: ys) = levenshtein xs ys + mismatch x y ∨
      levenshtein (x :: xs) (y :: ys) = levenshtein xs (y :: ys) + 1 ∨
      levenshtein (x :: xs) (y :: ys) = levenshtein (x :: xs) ys + 1 := by
  rw [levenshtein_cons_cons]
  omega

lemma edits_levenshtein (xs ys : List α) : Edits (levenshtein xs ys) xs ys := by
  induction xs generalizing ys with
  | nil => simpa using edits_from_nil ys
  | cons x xs ihx =>
    induction ys with
    | nil => simpa using edits_to_nil (x :: xs)
    | cons y ys ihy =>
      obtain h | h | h := levenshtein_cons_cons_cases x xs y ys
      · rw [h]
        have hrest : Edits (levenshtein xs ys) (y :: xs) (y :: ys) := (ihx ys).append_left [y]
        by_cases hxy : x = y
        · rw [mismatch, if_pos hxy, hxy]
          exact hrest
        · rw [mismatch, if_neg hxy]
          exact .step (.substitute [] x y xs) hrest
      · rw [h]
        exact .step (.delete [] x xs) (ihx (y :: ys))
      · rw [h]
        exact ihy.trans (.step (.insert [] y ys) (.refl _))

lemma levenshtein_cons_left_le (x : α) (xs ys : List α) :
    levenshtein (x :: xs) ys ≤ levenshtein xs ys + 1 := by
  cases ys with
  | nil => simp
  | cons y ys =>
    rw [levenshtein_cons_cons]
    omega

lemma levenshtein_cons_right_le (xs : List α) (y : α) (ys : List α) :
    levenshtein xs (y :: ys) ≤ levenshtein xs ys + 1 := by
  cases xs with
  | nil => simp
  | cons x xs =>
    rw [levenshtein_cons_cons]
    omega

lemma levenshtein_le_cons_left (x : α) (xs ys : List α) :
    levenshtein xs ys ≤ levenshtein (x :: xs) ys + 1 := by
  induction ys with
  | nil =>
    simp only [levenshtein_nil_right, List.length_cons]
    omega
  | cons y ys ih =>
    have hright := levenshtein_cons_right_le xs y ys
    have hcases := levenshtein_cons_cons_cases x xs y ys
    omega

lemma levenshtein_substitute_le (x y : α) (xs ys : List α) :
    levenshtein (x :: xs) ys ≤ levenshtein (y :: xs) ys + 1 := by
  induction ys with
  | nil => simp
  | cons z ys ih =>
    have hcases := levenshtein_cons_cons_cases y xs z ys
    have hmismatch := mismatch_le x z
    rw [levenshtein_cons_cons x]
    omega

/-- A bound behind a common front. -/
lemma levenshtein_append_left_le (h : ∀ zs, levenshtein xs zs ≤ levenshtein ys zs + 1) (front zs : List α) :
    levenshtein (front ++ xs) zs ≤ levenshtein (front ++ ys) zs + 1 := by
  induction front generalizing zs with
  | nil => exact h zs
  | cons x front ih =>
    induction zs with
    | nil =>
      have hnil := ih []
      simp only [levenshtein_nil_right] at hnil
      simp only [List.cons_append, levenshtein_nil_right, List.length_cons]
      omega
    | cons z zs ihz =>
      have hboth := ih zs
      have hleft := ih (z :: zs)
      have hcases := levenshtein_cons_cons_cases x (front ++ ys) z zs
      rw [List.cons_append] at ihz ⊢
      rw [levenshtein_cons_cons]
      rw [List.cons_append] at ihz ⊢
      omega

/-- One edit changes the distance by at most one. -/
lemma Edit.levenshtein_le (h : Edit xs ys) (zs : List α) : levenshtein xs zs ≤ levenshtein ys zs + 1 := by
  cases h with
  | insert front x back => exact levenshtein_append_left_le (levenshtein_le_cons_left x back) front zs
  | delete front x back => exact levenshtein_append_left_le (levenshtein_cons_left_le x back) front zs
  | substitute front x y back =>
    exact levenshtein_append_left_le (levenshtein_substitute_le x y back) front zs

lemma levenshtein_self (xs : List α) : levenshtein xs xs = 0 := by
  induction xs with
  | nil => rfl
  | cons x xs ih =>
    rw [levenshtein_cons_cons, mismatch, if_pos rfl, ih]
    omega

lemma Edits.levenshtein_le (h : Edits n xs ys) : levenshtein xs ys ≤ n := by
  induction h with
  | refl xs => rw [levenshtein_self]
  | step hedit _ ih => exact (hedit.levenshtein_le _).trans (Nat.succ_le_succ ih)

/-- **The least number of edits.** -/
theorem isLeast_levenshtein (xs ys : List α) : IsLeast {n | Edits n xs ys} (levenshtein xs ys) :=
  ⟨edits_levenshtein xs ys, fun _ h => Edits.levenshtein_le h⟩

lemma levenshtein_reverse (xs ys : List α) : levenshtein xs.reverse ys.reverse = levenshtein xs ys := by
  have hreverse := isLeast_levenshtein xs.reverse ys.reverse
  simp only [edits_reverse] at hreverse
  exact hreverse.unique (isLeast_levenshtein xs ys)

/-! ## Bounds from below -/

/-- The lengths cannot differ by more than there are edits. -/
lemma length_le_levenshtein (xs ys : List α) :
    xs.length ≤ ys.length + levenshtein xs ys ∧ ys.length ≤ xs.length + levenshtein xs ys := by
  induction xs generalizing ys with
  | nil => simp
  | cons x xs ihx =>
    induction ys with
    | nil => simp
    | cons y ys ihy =>
      have hboth := ihx ys
      have hleft := ihx (y :: ys)
      have hcases := levenshtein_cons_cons_cases x xs y ys
      simp only [List.length_cons] at hleft ihy ⊢
      omega

/-- What stands behind a front is no farther from some part of the other sequence than the whole is from it. -/
lemma exists_suffix_le (front xs zs : List α) :
    ∃ ys, ys <:+ zs ∧ levenshtein xs ys ≤ levenshtein (front ++ xs) zs := by
  induction front generalizing zs with
  | nil => exact ⟨zs, List.suffix_refl zs, le_rfl⟩
  | cons x front ih =>
    induction zs with
    | nil =>
      obtain ⟨ys, hsuffix, hle⟩ := ih []
      refine ⟨ys, hsuffix, ?_⟩
      simp only [levenshtein_nil_right] at hle
      simp only [List.cons_append, levenshtein_nil_right, List.length_cons]
      omega
    | cons z zs ihz =>
      rw [List.cons_append] at ihz ⊢
      obtain h | h | h := levenshtein_cons_cons_cases x (front ++ xs) z zs
      · obtain ⟨ys, hsuffix, hle⟩ := ih zs
        exact ⟨ys, hsuffix.trans (List.suffix_cons z zs), by omega⟩
      · obtain ⟨ys, hsuffix, hle⟩ := ih (z :: zs)
        exact ⟨ys, hsuffix, by omega⟩
      · obtain ⟨ys, hsuffix, hle⟩ := ihz
        exact ⟨ys, hsuffix.trans (List.suffix_cons z zs), by omega⟩

end EditDistance
end NestWeaver
