import Mathlib.Algebra.Order.BigOperators.Group.List
import Mathlib.Algebra.Ring.Nat
import Mathlib.Data.List.Basic

/-!
# Byte offsets

A text is cut at a number of bytes of its UTF-8 code, where that number does not fall inside a character.
-/

set_option linter.all false

namespace NestWeaver
namespace ByteOffsets

/-- The length of a text in UTF-8. -/
def byteLength (s : List Char) : ℕ := (s.map Char.utf8Size).sum

/-- What is before and after an offset, unless it is inside a character or behind the end. -/
def splitAtByte : List Char → ℕ → Option (List Char × List Char)
  | s, 0 => some ([], s)
  | [], _ + 1 => none
  | c :: s, n + 1 =>
    if c.utf8Size ≤ n + 1 then (splitAtByte s (n + 1 - c.utf8Size)).map fun parts => (c :: parts.1, parts.2)
    else none

variable {s front back : List Char} {n : ℕ}

@[simp] lemma byteLength_nil : byteLength [] = 0 := rfl

@[simp] lemma byteLength_cons (c : Char) (s : List Char) :
    byteLength (c :: s) = c.utf8Size + byteLength s := by
  rw [byteLength, List.map_cons, List.sum_cons]
  rfl

@[simp] lemma byteLength_append (s s' : List Char) :
    byteLength (s ++ s') = byteLength s + byteLength s' := by
  rw [byteLength, List.map_append, List.sum_append]
  rfl

lemma splitAtByte_append (front back : List Char) :
    splitAtByte (front ++ back) (byteLength front) = some (front, back) := by
  induction front with
  | nil =>
    rw [List.nil_append, byteLength_nil]
    cases back <;> rfl
  | cons c front ih =>
    obtain ⟨k, hk⟩ := Nat.exists_eq_add_of_lt c.utf8Size_pos
    have hsize : byteLength (c :: front) = (c.utf8Size - 1 + byteLength front) + 1 := by
      rw [byteLength_cons]
      omega
    have hrest : c.utf8Size - 1 + byteLength front + 1 - c.utf8Size = byteLength front := by omega
    rw [hsize, List.cons_append, splitAtByte, if_pos (by omega), hrest, ih]
    rfl

lemma splitAtByte_eq_some (h : splitAtByte s n = some (front, back)) :
    s = front ++ back ∧ byteLength front = n := by
  induction s generalizing n front with
  | nil =>
    cases n with
    | zero =>
      obtain ⟨rfl, rfl⟩ := Prod.mk.inj (Option.some.inj h)
      exact ⟨rfl, rfl⟩
    | succ n => cases h
  | cons c s ih =>
    cases n with
    | zero =>
      obtain ⟨rfl, rfl⟩ := Prod.mk.inj (Option.some.inj h)
      exact ⟨rfl, rfl⟩
    | succ n =>
      rw [splitAtByte] at h
      split_ifs at h with hle
      obtain ⟨⟨front', back'⟩, hparts, heq⟩ := Option.map_eq_some_iff.mp h
      obtain ⟨rfl, rfl⟩ := Prod.mk.inj heq
      obtain ⟨rfl, hlength⟩ := ih hparts
      refine ⟨rfl, ?_⟩
      rw [byteLength_cons, hlength]
      omega

end ByteOffsets
end NestWeaver
