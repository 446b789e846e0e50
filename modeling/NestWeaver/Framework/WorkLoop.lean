import Mathlib.Logic.Hydra
import Mathlib.Logic.Relation
import Mathlib.Data.Sum.Basic
import Mathlib.Tactic.Abel

/-!
# Loops over a worklist

A `while` loop is a step that either goes on with a new state or leaves with a result.
`runLoop` runs it with a bound on the number of passes; the bound is a device of the definition:
the result does not depend on it (`runLoop_unique`), and a loop whose step decreases a
well-founded relation has one (`runLoop_loop`).

For a worklist the decreasing quantity is the multiset of the ranks of its entries: a pass takes
an entry out and puts back only entries of smaller rank (`requeue_decreases`).
-/

set_option linter.all false

namespace NestWeaver
namespace WorkLoop

universe u v

variable {σ : Type u} {ρ : Type v} (step : σ → σ ⊕ ρ)

/-- At most `fuel` passes; `none` when they do not suffice. -/
def runLoop : ℕ → σ → Option ρ
  | 0, _ => none
  | fuel + 1, s =>
    match step s with
    | .inl s' => runLoop fuel s'
    | .inr r => some r

/-- The states a run goes through. -/
def Reaches : σ → σ → Prop := Relation.ReflTransGen fun s s' => step s = .inl s'

variable {step}

lemma Reaches.refl (s : σ) : Reaches step s s := Relation.ReflTransGen.refl

lemma Reaches.tail {s t t' : σ} (h : Reaches step s t) (hstep : step t = .inl t') :
    Reaches step s t' :=
  Relation.ReflTransGen.tail h hstep

/-- A run that ends stands in a reached state when it does. -/
lemma runLoop_eq_some {fuel : ℕ} {s : σ} {r : ρ} (h : runLoop step fuel s = some r) :
    ∃ t, Reaches step s t ∧ step t = .inr r := by
  induction fuel generalizing s with
  | zero => cases h
  | succ fuel ih =>
    rw [runLoop] at h
    split at h
    · rename_i s' hs'
      obtain ⟨t, ht, hr⟩ := ih h
      exact ⟨t, Relation.ReflTransGen.head hs' ht, hr⟩
    · rename_i r' hr'
      cases h
      exact ⟨s, .refl s, hr'⟩

/-- The result of a loop does not depend on the bound. -/
lemma runLoop_unique {fuel fuel' : ℕ} {s : σ} {r r' : ρ} (h : runLoop step fuel s = some r)
    (h' : runLoop step fuel' s = some r') : r = r' := by
  induction fuel generalizing fuel' s with
  | zero => cases h
  | succ fuel ih =>
    cases fuel' with
    | zero => cases h'
    | succ fuel' =>
      rw [runLoop] at h h'
      split at h
      · exact ih h (by simpa [*] using h')
      · simp_all

/-- A property kept by every pass holds in every state a run goes through. -/
lemma Reaches.invariant {P : σ → Prop} {s t : σ} (h : Reaches step s t) (hs : P s)
    (hstep : ∀ a b, P a → step a = .inl b → P b) : P t := by
  induction h with
  | refl => exact hs
  | tail _ hab ih => exact hstep _ _ ih hab

/-- The same, for a property that a pass keeps only where a condition on the state holds, along
a run all of whose states meet the condition. -/
lemma Reaches.invariant_of {P Q : σ → Prop} {s t : σ} (h : Reaches step s t) (hs : P s)
    (hQ : ∀ a, Reaches step s a → Q a) (hstep : ∀ a b, P a → Q a → step a = .inl b → P b) :
    P t := by
  induction h with
  | refl => exact hs
  | tail hsa hab ih => exact hstep _ _ ih (hQ _ hsa) hab

lemma liftRel_flip {α α' : Type u} {β β' : Type v} {R : α → α' → Prop} {Q : β → β' → Prop}
    {x : α ⊕ β} {y : α' ⊕ β'} (h : Sum.LiftRel R Q x y) : Sum.LiftRel (flip R) (flip Q) y x := by
  cases h with
  | inl h => exact .inl h
  | inr h => exact .inr h

/-- Two loops that go in step keep their relation, and end together with related results. -/
lemma runLoop_simulates {σ' : Type u} {ρ' : Type v} {step' : σ' → σ' ⊕ ρ'} {R : σ → σ' → Prop}
    {Q : ρ → ρ' → Prop} (hsim : ∀ a b, R a b → Sum.LiftRel R Q (step a) (step' b)) {fuel : ℕ}
    {s : σ} {s' : σ'} {r : ρ} (hs : R s s') (h : runLoop step fuel s = some r) :
    ∃ r', runLoop step' fuel s' = some r' ∧ Q r r' := by
  induction fuel generalizing s s' with
  | zero => cases h
  | succ fuel ih =>
    have hstep := hsim s s' hs
    rw [runLoop] at h ⊢
    cases hs₁ : step s <;> cases hs₂ : step' s' <;> rw [hs₁, hs₂] at hstep
    · rw [hs₁] at h
      exact ih (Sum.liftRel_inl_inl.mp hstep) h
    · cases hstep
    · cases hstep
    · rw [hs₁] at h
      cases h
      exact ⟨_, rfl, Sum.liftRel_inr_inr.mp hstep⟩

lemma Reaches.simulates {σ' : Type u} {ρ' : Type v} {step' : σ' → σ' ⊕ ρ'} {R : σ → σ' → Prop}
    {Q : ρ → ρ' → Prop} (hsim : ∀ a b, R a b → Sum.LiftRel R Q (step a) (step' b)) {s t : σ}
    {s' : σ'} (hs : R s s') (h : Reaches step s t) : ∃ t', Reaches step' s' t' ∧ R t t' := by
  induction h with
  | refl => exact ⟨s', .refl s', hs⟩
  | @tail a b _ hab ih =>
    obtain ⟨a', ha', hR⟩ := ih
    have hstep := hsim a a' hR
    rw [hab] at hstep
    cases hb : step' a' with
    | inl b' =>
      rw [hb] at hstep
      exact ⟨b', ha'.tail hb, Sum.liftRel_inl_inl.mp hstep⟩
    | inr r =>
      rw [hb] at hstep
      cases hstep

/-! ## Loops that end -/

/-- The result of a loop whose step decreases a well-founded relation. -/
def loop {R : σ → σ → Prop} (hR : WellFounded R) (hdecreases : ∀ s s', step s = .inl s' → R s' s)
    (s : σ) : ρ :=
  match _h : step s with
  | .inl s' => loop hR hdecreases s'
  | .inr r => r
termination_by hR.wrap s
decreasing_by exact hdecreases s s' _h

section Terminating

variable {R : σ → σ → Prop} (hR : WellFounded R)
  (hdecreases : ∀ s s', step s = .inl s' → R s' s)

/-- Such a loop ends. -/
theorem runLoop_loop (s : σ) : ∃ fuel, runLoop step fuel s = some (loop hR hdecreases s) := by
  induction s using hR.induction with
  | _ s ih =>
    rw [loop]
    split
    · rename_i s' hs
      obtain ⟨fuel, h⟩ := ih s' (hdecreases s s' hs)
      exact ⟨fuel + 1, by rw [runLoop, hs]; exact h⟩
    · rename_i r hs
      exact ⟨1, by rw [runLoop, hs]⟩

lemma loop_eq_of_runLoop {fuel : ℕ} {s : σ} {r : ρ} (h : runLoop step fuel s = some r) :
    loop hR hdecreases s = r := by
  obtain ⟨fuel', h'⟩ := runLoop_loop hR hdecreases s
  exact runLoop_unique h' h

end Terminating

/-! ## Worklists -/

/-- Taking an entry off a worklist and adding entries of smaller rank decreases the multiset of
the ranks. -/
lemma requeue_decreases {α : Type u} (rank : α → ℕ) (x : α) (queue added : List α)
    (h : ∀ y ∈ added, rank y < rank x) :
    Relation.CutExpand (· < ·) (((queue ++ added).map rank : List ℕ) : Multiset ℕ)
      (((x :: queue).map rank : List ℕ) : Multiset ℕ) := by
  refine ⟨((added.map rank : List ℕ) : Multiset ℕ), rank x, ?_, ?_⟩
  · intro n hn
    obtain ⟨y, hy, rfl⟩ := List.mem_map.mp (Multiset.mem_coe.mp hn)
    exact h y hy
  · rw [List.map_append, List.map_cons, ← Multiset.coe_add, ← Multiset.cons_coe,
      ← Multiset.singleton_add]
    abel

/-- The relation of `requeue_decreases` is well-founded. -/
lemma requeue_wellFounded {α : Type u} (rank : α → ℕ) (queue : σ → List α) :
    WellFounded fun s' s => Relation.CutExpand (· < ·)
      (((queue s').map rank : List ℕ) : Multiset ℕ) (((queue s).map rank : List ℕ) : Multiset ℕ) :=
  InvImage.wf (fun s => (((queue s).map rank : List ℕ) : Multiset ℕ))
    (WellFounded.cutExpand wellFounded_lt)

end WorkLoop
end NestWeaver
