import Mathlib.Data.List.Induction
import Mathlib.Logic.Relation

/-!
# Transition systems

A system that takes one action at a time, in any order, each action where it is enabled.
-/

set_option linter.all false

namespace NestWeaver
namespace Transition

variable {σ α : Type*} (step : σ → α → Option σ)

/-- Some sequence of actions leads from one state to the other. -/
def Steps : σ → σ → Prop := Relation.ReflTransGen fun s s' => ∃ a, step s a = some s'

/-- A sequence of actions. -/
def run (s : σ) (actions : List α) : Option σ := actions.foldlM step s

/-- The system whose actions are taken under a condition only. -/
def guarded (ok : σ → α → Prop) [∀ s a, Decidable (ok s a)] (s : σ) (a : α) : Option σ :=
  if ok s a then step s a else none

variable {step}

lemma guarded_eq_some {ok : σ → α → Prop} [∀ s a, Decidable (ok s a)] {s t : σ} {a : α} :
    guarded step ok s a = some t ↔ ok s a ∧ step s a = some t := by
  rw [guarded]
  by_cases hok : ok s a
  · simp [hok]
  · simp [hok]

lemma Steps.refl (s : σ) : Steps step s s := Relation.ReflTransGen.refl

lemma Steps.tail {s t t' : σ} {a : α} (h : Steps step s t) (hstep : step t a = some t') :
    Steps step s t' :=
  Relation.ReflTransGen.tail h ⟨a, hstep⟩

lemma Steps.trans {s t u : σ} (h : Steps step s t) (h' : Steps step t u) : Steps step s u :=
  Relation.ReflTransGen.trans h h'

/-- A property kept by every action holds in every state a run goes through. -/
lemma Steps.invariant {P : σ → Prop} {s t : σ} (h : Steps step s t) (hs : P s)
    (hstep : ∀ u a u', P u → step u a = some u' → P u') : P t := by
  induction h with
  | refl => exact hs
  | tail _ hab ih =>
    obtain ⟨a, ha⟩ := hab
    exact hstep _ a _ ih ha

lemma run_append (s : σ) (front back : List α) :
    run step s (front ++ back) = (run step s front).bind (run step · back) := by
  rw [run, List.foldlM_append]
  rfl

lemma run_concat (s : σ) (actions : List α) (a : α) :
    run step s (actions ++ [a]) = (run step s actions).bind (step · a) := by
  rw [run_append]
  refine Option.bind_congr fun u _ => ?_
  rw [run, List.foldlM_cons]
  exact Option.bind_fun_some _

/-- The last action of a run, and the run before it. -/
lemma run_concat_eq_some {s t : σ} {actions : List α} {a : α} :
    run step s (actions ++ [a]) = some t ↔ ∃ u, run step s actions = some u ∧ step u a = some t := by
  rw [run_concat, Option.bind_eq_some_iff]

lemma steps_of_run {s t : σ} {actions : List α} (h : run step s actions = some t) :
    Steps step s t := by
  induction actions generalizing s with
  | nil =>
    obtain rfl : s = t := Option.some.inj h
    exact .refl s
  | cons a actions ih =>
    rw [run, List.foldlM_cons] at h
    obtain ⟨u, hu, hrest⟩ := Option.bind_eq_some_iff.mp h
    exact ((Steps.refl s).tail hu).trans (ih hrest)

variable (step) in
/-- The condition holds whenever an action of the sequence is taken. -/
def Along (ok : σ → α → Prop) (s : σ) (actions : List α) : Prop :=
  ∀ front a back u, actions = front ++ a :: back → run step s front = some u → ok u a

lemma along_nil {ok : σ → α → Prop} {s : σ} : Along step ok s [] := by
  intro front a back u heq
  exact absurd heq.symm (List.append_ne_nil_of_right_ne_nil _ (List.cons_ne_nil _ _))

lemma Along.cons {ok : σ → α → Prop} {s : σ} {a : α} {actions : List α} (ha : ok s a)
    (h : ∀ u, step s a = some u → Along step ok u actions) : Along step ok s (a :: actions) := by
  intro front a' back u heq hrun
  cases front with
  | nil =>
    obtain ⟨rfl, rfl⟩ := List.cons.inj heq
    obtain rfl : s = u := Option.some.inj hrun
    exact ha
  | cons b front =>
    obtain ⟨rfl, rfl⟩ := List.cons.inj heq
    rw [run, List.foldlM_cons] at hrun
    obtain ⟨v, hv, hrest⟩ := Option.bind_eq_some_iff.mp hrun
    exact h v hv front a' back u rfl hrest

/-- A run under a condition is a run along which the condition holds. -/
lemma along_of_guarded {ok : σ → α → Prop} [∀ s a, Decidable (ok s a)] {s t : σ} {actions : List α}
    (h : run (guarded step ok) s actions = some t) :
    Along step ok s actions ∧ run step s actions = some t := by
  induction actions generalizing s with
  | nil => exact ⟨along_nil, h⟩
  | cons a actions ih =>
    rw [run, List.foldlM_cons] at h
    obtain ⟨u, hu, hrest⟩ := Option.bind_eq_some_iff.mp h
    obtain ⟨hok, hstep⟩ := guarded_eq_some.mp hu
    obtain ⟨halong, hrun⟩ := ih hrest
    refine ⟨Along.cons hok fun v hv => ?_, ?_⟩
    · obtain rfl := Option.some.inj (hstep.symm.trans hv)
      exact halong
    · rw [run, List.foldlM_cons]
      exact Option.bind_eq_some_iff.mpr ⟨u, hstep, hrun⟩

/-- A property kept by every action that is taken under a condition holds at the end of a run along
which the condition holds. -/
lemma Along.invariant {P : σ → Prop} {ok : σ → α → Prop} {s t : σ} {actions : List α}
    (h : Along step ok s actions) (hrun : run step s actions = some t) (hs : P s)
    (hstep : ∀ u u', ∀ a ∈ actions, P u → ok u a → step u a = some u' → P u') : P t := by
  induction actions using List.reverseRecOn generalizing t with
  | nil =>
    obtain rfl : s = t := Option.some.inj hrun
    exact hs
  | append_singleton front a ih =>
    obtain ⟨u, hu, ha⟩ := run_concat_eq_some.mp hrun
    have hmem : a ∈ front ++ [a] := List.mem_append_right _ List.mem_cons_self
    refine hstep u t a hmem (ih ?_ hu ?_) (h front a [] u rfl hu) ha
    · intro front' a' back u' heq
      refine h front' a' (back ++ [a]) u' ?_
      rw [heq, List.append_assoc, List.cons_append]
    · exact fun v v' a' ha' => hstep v v' a' (List.mem_append_left _ ha')

end Transition
end NestWeaver
