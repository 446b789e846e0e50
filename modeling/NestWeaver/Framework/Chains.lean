import Mathlib.Data.List.Flatten
import Mathlib.Data.List.Perm.Basic
import Mathlib.Logic.Relation

/-!
# Chains of steps

Something is followed along the steps it allows, and a chain of steps ends where it comes back to what it
has passed.  A chain is the list of what was passed, the latest first, and where it has got to.  `walk`
lists the chains of fewer than `k` hops in depth-first order, each as often as it can be followed
(`mem_walk`), and `Exhausted` says that all the chains are among these and none of them is blocked
(`exhausted_succ`).
-/

set_option linter.all false

namespace NestWeaver
namespace Chains

variable {α : Type*}

/-- One step on, from something that was not passed before. -/
def Hop (next : α → List α) (c c' : List α × α) : Prop :=
  c.2 ∉ c.1 ∧ c'.1 = c.2 :: c.1 ∧ c'.2 ∈ next c.2

/-- A chain goes on to another. -/
def Chain (next : α → List α) : List α × α → List α × α → Prop :=
  Relation.ReflTransGen (Hop next)

/-- Every chain has fewer than `k` further hops, and where one gets to is not blocked. -/
structure Exhausted (next : α → List α) (blocked : α → Prop) (k : ℕ) (c : List α × α) : Prop where
  short : ∀ c', Chain next c c' → c'.1.length < c.1.length + k
  clear : ∀ c', Chain next c c' → c'.2 ∉ c'.1 → ¬ blocked c'.2

variable {next : α → List α} {blocked : α → Prop} {k : ℕ} {path : List α} {p : α} {c c' : List α × α}

/-- A chain that goes on takes a first step. -/
lemma chain_iff : Chain next (path, p) c ↔
    c = (path, p) ∨ p ∉ path ∧ ∃ q ∈ next p, Chain next (p :: path, q) c := by
  constructor
  · intro h
    obtain h | ⟨⟨_, q⟩, ⟨hp, rfl, hq⟩, h⟩ := Relation.ReflTransGen.cases_head h
    · exact .inl h.symm
    · exact .inr ⟨hp, q, hq, h⟩
  · rintro (rfl | ⟨hp, q, hq, h⟩)
    · exact Relation.ReflTransGen.refl
    · exact Relation.ReflTransGen.head ⟨hp, rfl, hq⟩ h

lemma Chain.length_le (h : Chain next c c') : c.1.length ≤ c'.1.length := by
  induction h with
  | refl => exact Nat.le_refl _
  | tail _ hop ih =>
    rw [hop.2.1, List.length_cons]
    omega

lemma not_exhausted_zero : ¬ Exhausted next blocked 0 c :=
  fun h => absurd (h.short c Relation.ReflTransGen.refl) (by simp)

/-- What is left to exhaust is nothing where a cycle is closed, and else what the steps lead to. -/
lemma exhausted_succ : Exhausted next blocked (k + 1) (path, p) ↔
    p ∈ path ∨ ¬ blocked p ∧ ∀ q ∈ next p, Exhausted next blocked k (p :: path, q) := by
  by_cases hp : p ∈ path
  · refine iff_of_true ⟨fun c hc => ?_, fun c hc hopen => ?_⟩ (.inl hp)
    · obtain rfl | ⟨hnew, -⟩ := chain_iff.mp hc
      · simp
      · exact absurd hp hnew
    · obtain rfl | ⟨hnew, -⟩ := chain_iff.mp hc
      · exact absurd hp hopen
      · exact absurd hp hnew
  · rw [or_iff_right hp]
    constructor
    · intro h
      refine ⟨h.clear _ Relation.ReflTransGen.refl hp, fun q hq => ⟨fun c hc => ?_, fun c hc => ?_⟩⟩
      · have hlt := h.short c (chain_iff.mpr (.inr ⟨hp, q, hq, hc⟩))
        simp only [List.length_cons] at hlt ⊢
        omega
      · exact h.clear c (chain_iff.mpr (.inr ⟨hp, q, hq, hc⟩))
    · rintro ⟨hclear, h⟩
      refine ⟨fun c hc => ?_, fun c hc => ?_⟩
      · obtain rfl | ⟨-, q, hq, hc⟩ := chain_iff.mp hc
        · simp
        · have hlt := (h q hq).short c hc
          simp only [List.length_cons] at hlt ⊢
          omega
      · obtain rfl | ⟨-, q, hq, hc⟩ := chain_iff.mp hc
        · exact fun _ => hclear
        · exact (h q hq).clear c hc

section Walk

variable [DecidableEq α]

/-- The chains of fewer than `k` further hops, in depth-first order. -/
def walk (next : α → List α) : ℕ → List α → α → List (List α × α)
  | 0, _, _ => []
  | k + 1, path, p =>
    (path, p) :: if p ∈ path then [] else (next p).flatMap (walk next k (p :: path))

lemma mem_walk_succ : c ∈ walk next (k + 1) path p ↔
    c = (path, p) ∨ p ∉ path ∧ ∃ q ∈ next p, c ∈ walk next k (p :: path) q := by
  rw [walk, List.mem_cons]
  by_cases hp : p ∈ path
  · simp [hp]
  · simp [hp]

/-- What is walked are the chains. -/
lemma mem_walk : c ∈ walk next k path p ↔
    Chain next (path, p) c ∧ c.1.length < path.length + k := by
  induction k generalizing path p with
  | zero =>
    refine iff_of_false List.not_mem_nil fun ⟨h, hlt⟩ => ?_
    exact absurd h.length_le (Nat.not_le_of_lt hlt)
  | succ k ih =>
    rw [mem_walk_succ, chain_iff]
    constructor
    · rintro (rfl | ⟨hp, q, hq, h⟩)
      · exact ⟨.inl rfl, by simp⟩
      · obtain ⟨h, hlt⟩ := ih.mp h
        rw [List.length_cons] at hlt
        exact ⟨.inr ⟨hp, q, hq, h⟩, by omega⟩
    · rintro ⟨rfl | ⟨hp, q, hq, h⟩, hlt⟩
      · exact .inl rfl
      · refine .inr ⟨hp, q, hq, ih.mpr ⟨h, ?_⟩⟩
        rw [List.length_cons]
        omega

end Walk

/-! ## The order of the steps -/

section Order

variable {next' : α → List α} (hnext : ∀ p, (next' p).Perm (next p))

include hnext

lemma chain_perm : Chain next' c c' ↔ Chain next c c' := by
  have h : Hop next' = Hop next := by
    funext c c'
    rw [Hop, Hop, (hnext c.2).mem_iff]
  rw [Chain, Chain, h]

lemma walk_perm [DecidableEq α] : (walk next' k path p).Perm (walk next k path p) := by
  induction k generalizing path p with
  | zero => exact .refl _
  | succ k ih =>
    rw [walk, walk]
    refine List.Perm.cons _ ?_
    by_cases hp : p ∈ path
    · rw [if_pos hp, if_pos hp]
    · rw [if_neg hp, if_neg hp]
      exact List.Perm.flatMap (hnext p) fun q _ => ih

end Order
end Chains
end NestWeaver
