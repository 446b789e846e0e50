import NestWeaver.Framework.Transition

/-!
# A selector with one step back

One of several versions is selected, or none.  A cutover selects another one and remembers which was selected
before; a rollback returns to that one, and only once.
-/

set_option linter.all false

namespace NestWeaver
namespace Selector

open Transition

variable {α : Type*}

structure State (α : Type*) where
  selected : Option α
  /-- Where a rollback leads, if one is possible. -/
  fallback : Option (Option α)

inductive Event (α : Type*)
  | cutover (version : α)
  | rollback

def initial : State α := ⟨none, none⟩

def step (s : State α) : Event α → Option (State α)
  | .cutover version => some ⟨some version, some s.selected⟩
  | .rollback => s.fallback.map fun before => ⟨before, none⟩

lemma step_rollback {s s' : State α} :
    step s .rollback = some s' ↔ ∃ before, s.fallback = some before ∧ s' = ⟨before, none⟩ := by
  rw [step, Option.map_eq_some_iff]
  exact exists_congr fun before => and_congr_right fun _ => eq_comm

/-- Where no rollback is possible, only a cutover goes on. -/
lemma eq_nil_of_no_cutover {s s' : State α} {events : List (Event α)} (hs : s.fallback = none)
    (h : run step s events = some s') (hno : ∀ version, Event.cutover version ∉ events) : events = [] := by
  cases events with
  | nil => rfl
  | cons e rest =>
    cases e with
    | cutover version => exact absurd List.mem_cons_self (hno version)
    | rollback =>
      rw [run, List.foldlM_cons, step, hs] at h
      cases h

/-- What is selected was selected by some cutover. -/
lemma cutover_of_selected {s : State α} {events : List (Event α)} {version : α}
    (h : run step initial events = some s) :
    (s.selected = some version → Event.cutover version ∈ events) ∧
      (s.fallback = some (some version) → Event.cutover version ∈ events) := by
  induction events using List.reverseRecOn generalizing s with
  | nil =>
    obtain rfl := Option.some.inj h
    simp [initial]
  | append_singleton front e ih =>
    obtain ⟨u, hu, hstep⟩ := run_concat_eq_some.mp h
    obtain ⟨hselected, hfallback⟩ := ih hu
    cases e with
    | cutover v =>
      obtain rfl := Option.some.inj hstep
      refine ⟨fun heq => ?_, fun heq => ?_⟩
      · obtain rfl := Option.some.inj heq
        exact List.mem_append_right _ (List.mem_singleton_self _)
      · exact List.mem_append_left _ (hselected (Option.some.inj heq))
    | rollback =>
      obtain ⟨before, hbefore, rfl⟩ := step_rollback.mp hstep
      constructor
      · intro heq
        have heq : before = some version := heq
        exact List.mem_append_left _ (hfallback (by rw [hbefore, heq]))
      · intro heq
        cases heq

end Selector
end NestWeaver
