import NestWeaver.Framework.Transition

/-!
# Agents with a shared state

Agents act one after the other, in any order.  What one of them does depends on the shared state and
on where it stands itself, and changes both.  A property of the shared state and of each agent holds
in every run if every act keeps it for the agent that acts and for each other one
(`Agents.Sound.steps`).
-/

set_option linter.all false

namespace NestWeaver

/-- A shared state, and where each agent stands. -/
structure Agents (ι σ π : Type*) where
  shared : σ
  phase : ι → π

namespace Agents

variable {ι α σ π : Type*} [DecidableEq ι]

/-- One act of one agent. -/
def step (act : ι → α → σ → π → Option (σ × π)) (w : Agents ι σ π) (ia : ι × α) :
    Option (Agents ι σ π) :=
  (act ia.1 ia.2 w.shared (w.phase ia.1)).map fun (shared, p) =>
    ⟨shared, Function.update w.phase ia.1 p⟩

omit [DecidableEq ι] in
/-- The property of the shared state, and that of each agent. -/
structure Holds (G : σ → Prop) (L : ι → σ → π → Prop) (w : Agents ι σ π) : Prop where
  shared : G w.shared
  agent : ∀ i, L i w.shared (w.phase i)

/-- Every act keeps the properties, those of the other agents too. -/
def Sound (act : ι → α → σ → π → Option (σ × π)) (G : σ → Prop) (L : ι → σ → π → Prop) : Prop :=
  ∀ i a s p s' p', G s → L i s p → act i a s p = some (s', p') →
    G s' ∧ L i s' p' ∧ ∀ j q, j ≠ i → L j s q → L j s' q

variable {act : ι → α → σ → π → Option (σ × π)} {G : σ → Prop} {L : ι → σ → π → Prop}
  {w w' : Agents ι σ π}

lemma step_eq_some {i : ι} {a : α} :
    w.step act (i, a) = some w' ↔ ∃ s' p', act i a w.shared (w.phase i) = some (s', p') ∧
      w' = ⟨s', Function.update w.phase i p'⟩ := by
  rw [step, Option.map_eq_some_iff, Prod.exists]
  exact exists₂_congr fun s' p' => and_congr_right fun _ => eq_comm

lemma Sound.step (hact : Sound act G L) (hw : w.Holds G L) {ia : ι × α}
    (h : w.step act ia = some w') : w'.Holds G L := by
  obtain ⟨i, a⟩ := ia
  obtain ⟨⟨s', p'⟩, hstep, rfl⟩ := Option.map_eq_some_iff.mp h
  obtain ⟨hshared, hself, hothers⟩ := hact i a _ _ s' p' hw.shared (hw.agent i) hstep
  refine ⟨hshared, fun j => ?_⟩
  by_cases hj : j = i
  · subst hj
    simpa using hself
  · simpa [hj] using hothers j _ hj (hw.agent j)

/-- What holds at the beginning of a run holds at its end. -/
theorem Sound.steps (hact : Sound act G L) (hw : w.Holds G L)
    (h : Transition.Steps (Agents.step act) w w') : w'.Holds G L :=
  h.invariant hw fun _ _ _ hu hstep => hact.step hu hstep

end Agents
end NestWeaver
