import Mathlib.Data.List.Nodup
import Mathlib.Data.List.Perm.Subperm

/-!
# Greedy matching

Each element takes the first partner that is left and suits it (`greedy`).  In general who is matched with
whom depends on the order.  The first that suits the first is always taken (`greedy_first`), and where
nobody has a choice all that suit are matched (`mem_greedy_iff`).
-/

set_option linter.all false

namespace NestWeaver

variable {α β : Type*}

/-- Each element takes the first partner that is left and suits it. -/
def greedy (suits : α → β → Bool) : List α → List β → List (α × β)
  | [], _ => []
  | a :: as, bs =>
    match bs.find? (suits a) with
    | none => greedy suits as bs
    | some b => (a, b) :: greedy suits as (bs.eraseP (suits a))

variable {suits : α → β → Bool} {as : List α} {bs : List β} {a a' : α} {b b' : β}

lemma greedy_first (h : suits a b = true) : (a, b) ∈ greedy suits (a :: as) (b :: bs) := by
  rw [greedy, List.find?_cons_of_pos h]
  exact List.mem_cons_self

lemma mem_greedy (h : (a, b) ∈ greedy suits as bs) : a ∈ as ∧ b ∈ bs ∧ suits a b = true := by
  induction as generalizing bs with
  | nil => exact absurd h List.not_mem_nil
  | cons a' as ih =>
    rw [greedy] at h
    cases hfind : bs.find? (suits a') with
    | none =>
      rw [hfind] at h
      obtain ⟨ha, hb⟩ := ih h
      exact ⟨List.mem_cons_of_mem _ ha, hb⟩
    | some b' =>
      rw [hfind] at h
      obtain heq | h := List.mem_cons.mp h
      · obtain ⟨rfl, rfl⟩ := Prod.mk.inj heq
        exact ⟨List.mem_cons_self, List.mem_of_find?_eq_some hfind, List.find?_some hfind⟩
      · obtain ⟨ha, hb, hsuits⟩ := ih h
        exact ⟨List.mem_cons_of_mem _ ha, List.mem_of_mem_eraseP hb, hsuits⟩

lemma greedy_fst_sublist : ((greedy suits as bs).map Prod.fst).Sublist as := by
  induction as generalizing bs with
  | nil => exact List.Sublist.refl _
  | cons a as ih =>
    rw [greedy]
    cases bs.find? (suits a) with
    | none => exact ih.cons a
    | some b => exact ih.cons_cons a

lemma greedy_snd_subperm : ((greedy suits as bs).map Prod.snd).Subperm bs := by
  induction as generalizing bs with
  | nil => exact List.nil_subperm
  | cons a as ih =>
    rw [greedy]
    cases hfind : bs.find? (suits a) with
    | none => exact ih
    | some b =>
      obtain ⟨hb, front, back, rfl, hfront⟩ := List.find?_eq_some_iff_append.mp hfind
      have herase : (front ++ b :: back).eraseP (suits a) = front ++ back := by
        rw [List.eraseP_append_right _ fun x hx => by simpa using hfront x hx,
          List.eraseP_cons_of_pos hb]
      rw [List.map_cons, herase]
      exact ((List.subperm_cons b).mpr ih).trans List.perm_middle.symm.subperm

/-- Where nobody suits two, all that suit are matched. -/
lemma mem_greedy_iff (hfst : ∀ a ∈ as, ∀ b ∈ bs, ∀ b' ∈ bs, suits a b = true → suits a b' = true → b = b')
    (hsnd : ∀ a ∈ as, ∀ a' ∈ as, ∀ b ∈ bs, suits a b = true → suits a' b = true → a = a') :
    (a, b) ∈ greedy suits as bs ↔ a ∈ as ∧ b ∈ bs ∧ suits a b = true := by
  refine ⟨mem_greedy, ?_⟩
  rintro ⟨ha, hb, hsuits⟩
  induction as generalizing bs with
  | nil => exact absurd ha List.not_mem_nil
  | cons a' as ih =>
    have hfst' : ∀ x ∈ as, ∀ b ∈ bs, ∀ b' ∈ bs, suits x b = true → suits x b' = true → b = b' :=
      fun x hx => hfst x (List.mem_cons_of_mem _ hx)
    have hsnd' : ∀ x ∈ as, ∀ y ∈ as, ∀ b ∈ bs, suits x b = true → suits y b = true → x = y :=
      fun x hx y hy => hsnd x (List.mem_cons_of_mem _ hx) y (List.mem_cons_of_mem _ hy)
    rw [greedy]
    cases hfind : bs.find? (suits a') with
    | none =>
      obtain rfl | ha := List.mem_cons.mp ha
      · exact absurd hsuits (List.find?_eq_none.mp hfind b hb)
      · exact ih hfst' hsnd' ha hb
    | some b' =>
      have hb' := List.mem_of_find?_eq_some hfind
      have hsuits' := List.find?_some hfind
      by_cases ha' : suits a' b = true
      · -- the head takes `b`
        obtain rfl : a = a' := hsnd a ha a' List.mem_cons_self b hb hsuits ha'
        obtain rfl : b = b' := hfst a List.mem_cons_self b hb b' hb' ha' hsuits'
        exact List.mem_cons_self
      · obtain rfl | ha := List.mem_cons.mp ha
        · exact absurd hsuits ha'
        · refine List.mem_cons_of_mem _ (ih ?_ ?_ ha ?_)
          · exact fun x hx b hb b' hb' => hfst' x hx b (List.mem_of_mem_eraseP hb) b'
              (List.mem_of_mem_eraseP hb')
          · exact fun x hx y hy b hb => hsnd' x hx y hy b (List.mem_of_mem_eraseP hb)
          · exact (List.mem_eraseP_of_neg ha').mpr hb

end NestWeaver
