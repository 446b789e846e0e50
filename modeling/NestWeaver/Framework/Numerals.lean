import Mathlib.Algebra.Ring.Nat
import Mathlib.Data.List.Forall2
import Mathlib.Data.Nat.Digits.Defs

/-!
# Numerals

A number is read from its digits with a check for overflow at each of them.  Since the number only grows,
this is one check of the whole (`fromStrRadix_eq_some`): no intermediate value overflows unless the number
itself does.
-/

set_option linter.all false

namespace NestWeaver
namespace Numerals

/-- The value of a letter or digit, if it is one in this radix. -/
def toDigit (radix : ℕ) (c : Char) : Option ℕ :=
  let value :=
    if 48 ≤ c.toNat ∧ c.toNat ≤ 57 then some (c.toNat - 48)
    else if 97 ≤ c.toNat ∧ c.toNat ≤ 122 then some (c.toNat - 87)
    else if 65 ≤ c.toNat ∧ c.toNat ≤ 90 then some (c.toNat - 55)
    else none
  value.filter (· < radix)

def pushDigit (limit radix n : ℕ) (c : Char) : Option ℕ :=
  match toDigit radix c with
  | none => none
  | some d => if n * radix + d < limit then some (n * radix + d) else none

/-- The number these digits write, if it is below the limit. -/
def readDigits (limit radix : ℕ) (s : List Char) : Option ℕ :=
  if s = [] then none else s.foldlM (pushDigit limit radix) 0

/-- A sign may stand before the digits. -/
def fromStrRadix (limit radix : ℕ) : List Char → Option ℕ
  | '+' :: s => readDigits limit radix s
  | s => readDigits limit radix s

/-- The text writes the number in this radix. -/
def IsNumeral (radix : ℕ) (s : List Char) (n : ℕ) : Prop :=
  s ≠ [] ∧ ∃ ds, List.Forall₂ (fun c d => toDigit radix c = some d) s ds ∧
    n = Nat.ofDigits radix ds.reverse

variable {limit radix n acc : ℕ} {c : Char} {s : List Char}

lemma toDigit_eq_some {d : ℕ} (h : toDigit radix c = some d) : d < radix ∧
    (c.toNat = d + 48 ∧ d < 10 ∨ (c.toNat = d + 87 ∨ c.toNat = d + 55) ∧ 10 ≤ d ∧ d < 36) := by
  simp only [toDigit, Option.filter_eq_some_iff, decide_eq_true_eq] at h
  obtain ⟨hvalue, hd⟩ := h
  refine ⟨hd, ?_⟩
  split_ifs at hvalue
  · obtain rfl := Option.some.inj hvalue
    omega
  · obtain rfl := Option.some.inj hvalue
    omega
  · obtain rfl := Option.some.inj hvalue
    omega

lemma exists_of_forall₂ {α β : Type*} {R : α → β → Prop} {xs : List α} {ys : List β} {x : α}
    (h : List.Forall₂ R xs ys) (hx : x ∈ xs) : ∃ y ∈ ys, R x y := by
  induction h with
  | nil => cases hx
  | cons hxy _ ih =>
    obtain rfl | hx := List.mem_cons.mp hx
    · exact ⟨_, List.mem_cons_self, hxy⟩
    · obtain ⟨y, hy, hxy⟩ := ih hx
      exact ⟨y, List.mem_cons_of_mem _ hy, hxy⟩

/-- The characters of a numeral are digits. -/
lemma IsNumeral.chars (h : IsNumeral radix s n) (hc : c ∈ s) : ∃ d, toDigit radix c = some d := by
  obtain ⟨-, ds, hds, -⟩ := h
  obtain ⟨d, -, hd⟩ := exists_of_forall₂ hds hc
  exact ⟨d, hd⟩

lemma le_foldl (hradix : 0 < radix) (ds : List ℕ) :
    acc ≤ ds.foldl (fun n d => n * radix + d) acc := by
  induction ds generalizing acc with
  | nil => exact le_rfl
  | cons d ds ih =>
    refine le_trans ?_ ih
    exact le_trans (Nat.le_mul_of_pos_right acc hradix) (Nat.le_add_right _ _)

/-- Nothing overflows on the way. -/
lemma foldlM_pushDigit (hradix : 0 < radix) (hacc : acc < limit) :
    s.foldlM (pushDigit limit radix) acc = some n ↔
      ∃ ds, List.Forall₂ (fun c d => toDigit radix c = some d) s ds ∧
        n = ds.foldl (fun n d => n * radix + d) acc ∧ n < limit := by
  induction s generalizing acc with
  | nil =>
    simp only [List.foldlM_nil, List.forall₂_nil_left_iff, exists_eq_left, List.foldl_nil]
    constructor
    · rintro h
      obtain rfl := Option.some.inj h
      exact ⟨rfl, hacc⟩
    · rintro ⟨rfl, -⟩
      rfl
  | cons c s ih =>
    rw [List.foldlM_cons, pushDigit]
    cases hd : toDigit radix c with
    | none =>
      refine ⟨fun h => (by cases h), ?_⟩
      rintro ⟨ds, hds, -⟩
      obtain ⟨d, -, hd', -⟩ := List.forall₂_cons_left_iff.mp hds
      rw [hd] at hd'
      cases hd'
    | some d =>
      dsimp only
      have hcons : (∃ ds, List.Forall₂ (fun c d => toDigit radix c = some d) (c :: s) ds ∧
            n = ds.foldl (fun n d => n * radix + d) acc ∧ n < limit) ↔
          ∃ ds, List.Forall₂ (fun c d => toDigit radix c = some d) s ds ∧
            n = ds.foldl (fun n d => n * radix + d) (acc * radix + d) ∧ n < limit := by
        constructor
        · rintro ⟨ds, hds, hn⟩
          obtain ⟨d', ds', hd', hds', rfl⟩ := List.forall₂_cons_left_iff.mp hds
          obtain rfl : d = d' := Option.some.inj (hd.symm.trans hd')
          exact ⟨ds', hds', hn⟩
        · rintro ⟨ds, hds, hn⟩
          exact ⟨d :: ds, List.Forall₂.cons hd hds, hn⟩
      rw [hcons]
      by_cases hlt : acc * radix + d < limit
      · rw [if_pos hlt]
        exact ih hlt
      · rw [if_neg hlt]
        refine ⟨fun h => (by cases h), ?_⟩
        rintro ⟨ds, -, rfl, hn⟩
        exact absurd ((le_foldl hradix ds).trans_lt hn) hlt

lemma foldl_eq_ofDigits (ds : List ℕ) :
    ds.foldl (fun n d => n * radix + d) 0 = Nat.ofDigits radix ds.reverse := by
  rw [Nat.ofDigits_eq_foldr, List.foldr_reverse]
  congr
  funext n d
  rw [Nat.mul_comm n radix, Nat.add_comm]
  rfl

/-- The digits are read as the number they write, if it is below the limit. -/
lemma readDigits_eq_some (hradix : 0 < radix) (hlimit : 0 < limit) :
    readDigits limit radix s = some n ↔ IsNumeral radix s n ∧ n < limit := by
  rw [readDigits, IsNumeral]
  by_cases hs : s = []
  · rw [if_pos hs]
    exact ⟨fun h => (by cases h), fun h => absurd hs h.1.1⟩
  · rw [if_neg hs, foldlM_pushDigit hradix hlimit]
    constructor
    · rintro ⟨ds, hds, hn, hlt⟩
      exact ⟨⟨hs, ds, hds, hn.trans (foldl_eq_ofDigits ds)⟩, hlt⟩
    · rintro ⟨⟨-, ds, hds, hn⟩, hlt⟩
      exact ⟨ds, hds, hn.trans (foldl_eq_ofDigits ds).symm, hlt⟩

/-- **Reading a number.**  What is read are the digits of a number below the limit, with or without a
sign. -/
lemma fromStrRadix_eq_some (hradix : 0 < radix) (hlimit : 0 < limit) :
    fromStrRadix limit radix s = some n ↔
      (IsNumeral radix s n ∨ ∃ digits, s = '+' :: digits ∧ IsNumeral radix digits n) ∧ n < limit := by
  unfold fromStrRadix
  split
  · rename_i digits
    rw [readDigits_eq_some hradix hlimit]
    constructor
    · rintro ⟨h, hlt⟩
      exact ⟨.inr ⟨digits, rfl, h⟩, hlt⟩
    · rintro ⟨h | ⟨digits', heq, h⟩, hlt⟩
      · -- a sign is no digit
        obtain ⟨d, hd⟩ := h.chars List.mem_cons_self
        obtain ⟨-, hchar⟩ := toDigit_eq_some hd
        have hplus : '+'.toNat = 43 := rfl
        omega
      · obtain rfl := (List.cons.inj heq).2
        exact ⟨h, hlt⟩
  · rename_i hplus
    rw [readDigits_eq_some hradix hlimit]
    constructor
    · rintro ⟨h, hlt⟩
      exact ⟨.inl h, hlt⟩
    · rintro ⟨h | ⟨digits, rfl, -⟩, hlt⟩
      · exact ⟨h, hlt⟩
      · exact absurd rfl (hplus digits)

/-! ## Decimal numbers -/

lemma toDigit_of_isDigit (hc : c.isDigit = true) : toDigit 10 c = some (c.toNat - '0'.toNat) := by
  have hrange : 48 ≤ c.toNat ∧ c.toNat ≤ 57 := Char.isDigit_iff_toNat.mp hc
  have hzero : '0'.toNat = 48 := rfl
  have hlt : c.toNat - 48 < 10 := by omega
  rw [toDigit, if_pos hrange, hzero, Option.filter_some, if_pos (decide_eq_true hlt)]

lemma isNumeral_toDigits (n : ℕ) : IsNumeral 10 (Nat.toDigits 10 n) n := by
  refine ⟨Nat.toDigits_ne_nil, (Nat.toDigits 10 n).map fun c => c.toNat - '0'.toNat, ?_, ?_⟩
  · rw [List.forall₂_map_right_iff, List.forall₂_same]
    exact fun c hc => toDigit_of_isDigit (Nat.isDigit_of_mem_toDigits (by decide) (by decide) hc)
  · have hvalue := Nat.ofDigitChars_ten_toDigits (n := n)
    rw [Nat.ofDigitChars_eq_foldl] at hvalue
    rw [← foldl_eq_ofDigits, List.foldl_map]
    simp only [Nat.mul_comm _ 10]
    exact hvalue.symm

/-- **A number is read back from its digits.** -/
lemma fromStrRadix_toDigits (h : n < limit) : fromStrRadix limit 10 (Nat.toDigits 10 n) = some n :=
  (fromStrRadix_eq_some (by decide) (by omega)).mpr ⟨.inl (isNumeral_toDigits n), h⟩

end Numerals
end NestWeaver
