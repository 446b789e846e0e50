import Mathlib.Data.Finset.Basic

/-!
# Moves at the same time

Some elements of a finite set are to move, all at the same time; the others stay where they are.
Where elements would meet, those that were to move stay too, which may bring further elements
together, and so on until no element that moves meets another one (`Settles`).

What is left is the largest part of the moves under which no two elements meet
(`Settles.greatest`), whatever is rejected in which round.
-/

set_option linter.all false

namespace NestWeaver
namespace Relocation

variable {α : Type*}

/-- Where an element is after the moves. -/
def dest (moves : α → Option α) (x : α) : α := (moves x).getD x

/-- Another element of the set ends at the same place. -/
def Meets (s : Finset α) (moves : α → Option α) (x : α) : Prop :=
  ∃ y ∈ s, y ≠ x ∧ dest moves y = dest moves x

/-- The first moves are some of the second ones. -/
def Within (moves' moves : α → Option α) : Prop := ∀ x y, moves' x = some y → moves x = some y

/-- No two moves have the same target. -/
def OneToOne (moves : α → Option α) : Prop :=
  ∀ x x' y, moves x = some y → moves x' = some y → x = x'

/-- No two elements of the set meet. -/
def Apart (s : Finset α) (moves : α → Option α) : Prop :=
  ∀ x ∈ s, ∀ y ∈ s, dest moves x = dest moves y → x = y

/-- One round: the elements of the set that meet others stay. -/
structure Round (s : Finset α) (moves moves' : α → Option α) : Prop where
  stays : ∀ x ∈ s, Meets s moves x → moves' x = none
  keeps : ∀ x, ¬(x ∈ s ∧ Meets s moves x) → moves' x = moves x

/-- Rounds until no element that moves meets another one. -/
inductive Settles (s : Finset α) : (α → Option α) → (α → Option α) → Prop
  | done {moves : α → Option α} (h : ∀ x ∈ s, Meets s moves x → moves x = none) :
    Settles s moves moves
  | round {moves moves' final : α → Option α} (h : Round s moves moves')
    (hrest : Settles s moves' final) : Settles s moves final

variable {s : Finset α} {moves moves' other final : α → Option α} {x y : α}

lemma dest_of_some (h : moves x = some y) : dest moves x = y := by simp [dest, h]

lemma dest_of_none (h : moves x = none) : dest moves x = x := by simp [dest, h]

lemma Within.trans (h : Within other moves') (h' : Within moves' moves) : Within other moves :=
  fun x y hx => h' x y (h x y hx)

lemma OneToOne.within (h : OneToOne moves) (h' : Within moves' moves) : OneToOne moves' :=
  fun x x' y hx hx' => h x x' y (h' x y hx) (h' x' y hx')

/-- An element that moves can only meet one that stays. -/
lemma stays_of_meets (h : OneToOne moves) (hx : moves x = some y) {w : α} (hne : w ≠ x)
    (hw : dest moves w = dest moves x) : moves w = none ∧ w = y := by
  rw [dest_of_some hx] at hw
  cases hmove : moves w with
  | none => exact ⟨rfl, (dest_of_none hmove).symm.trans hw⟩
  | some z =>
    rw [dest_of_some hmove] at hw
    subst hw
    exact absurd (h w x z hmove hx) hne

namespace Round

lemma within (h : Round s moves moves') : Within moves' moves := by
  intro x y hx
  by_cases hmeets : x ∈ s ∧ Meets s moves x
  · rw [h.stays x hmeets.1 hmeets.2] at hx
    cases hx
  · rw [← h.keeps x hmeets]
    exact hx

/-- No round takes away a move of a part under which no elements meet. -/
lemma greatest (h : Round s moves moves') (hmoves : OneToOne moves) (hother : Apart s other)
    (hsub : ∀ x ∈ s, ∀ y, other x = some y → moves x = some y) :
    ∀ x ∈ s, ∀ y, other x = some y → moves' x = some y := by
  intro x hx y hy
  by_cases hmeets : Meets s moves x
  · obtain ⟨w, hw, hne, heq⟩ := hmeets
    obtain ⟨hwmoves, rfl⟩ := stays_of_meets hmoves (hsub x hx y hy) hne heq
    have hwother : other w = none := by
      cases hmove : other w with
      | none => rfl
      | some z =>
        have hmoved := hsub w hw z hmove
        rw [hwmoves] at hmoved
        cases hmoved
    have hmeet : dest other w = dest other x := by
      rw [dest_of_none hwother, dest_of_some hy]
    exact absurd (hother w hw x hx hmeet) hne
  · rw [h.keeps x fun hboth => hmeets hboth.2]
    exact hsub x hx y hy

end Round

namespace Settles

lemma within (h : Settles s moves final) : Within final moves := by
  induction h with
  | done h => exact fun x y hx => hx
  | round h _ ih => exact ih.trans h.within

/-- No two elements meet in the end. -/
lemma apart (h : Settles s moves final) (hmoves : OneToOne moves) : Apart s final := by
  induction h with
  | @done moves hdone =>
    intro x hx y hy heq
    by_contra hne
    have hxstays : moves x = none := hdone x hx ⟨y, hy, Ne.symm hne, heq.symm⟩
    have hystays : moves y = none := hdone y hy ⟨x, hx, hne, heq⟩
    rw [dest_of_none hxstays, dest_of_none hystays] at heq
    exact hne heq
  | round h _ ih => exact ih (hmoves.within h.within)

/-- Every part of the moves under which no elements meet is among those that are left. -/
lemma greatest (h : Settles s moves final) (hmoves : OneToOne moves) (hother : Apart s other)
    (hsub : ∀ x ∈ s, ∀ y, other x = some y → moves x = some y) :
    ∀ x ∈ s, ∀ y, other x = some y → final x = some y := by
  induction h with
  | done h => exact hsub
  | round h _ ih => exact ih (hmoves.within h.within) (h.greatest hmoves hother hsub)

/-- What is outside of the set moves. -/
lemma eq_of_notMem (h : Settles s moves final) (hx : x ∉ s) : final x = moves x := by
  induction h with
  | done h => rfl
  | round h _ ih => rw [ih, h.keeps x fun hboth => hx hboth.1]

/-- An element that was to move stays if and only if another one ends at its target. -/
lemma stays_iff (h : Settles s moves final) (hmoves : OneToOne moves) (hx : x ∈ s)
    (hxy : moves x = some y) : final x = none ↔ ∃ w ∈ s, w ≠ x ∧ dest final w = y := by
  constructor
  · intro hstays
    induction h with
    | done h =>
      rw [hxy] at hstays
      cases hstays
    | @round moves moves' final h hrest ih =>
      by_cases hmeets : Meets s moves x
      · obtain ⟨w, hw, hne, heq⟩ := hmeets
        obtain ⟨hwmoves, rfl⟩ := stays_of_meets hmoves hxy hne heq
        have hwfinal : final w = none := by
          cases hmove : final w with
          | none => rfl
          | some z =>
            have hmoved := h.within w z (hrest.within w z hmove)
            rw [hwmoves] at hmoved
            cases hmoved
        exact ⟨w, hw, hne, dest_of_none hwfinal⟩
      · refine ih (hmoves.within h.within) ?_ hstays
        rw [h.keeps x fun hboth => hmeets hboth.2]
        exact hxy
  · rintro ⟨w, hw, hne, heq⟩
    cases hmove : final x with
    | none => rfl
    | some z =>
      have hz : z = y := Option.some.inj ((h.within x z hmove).symm.trans hxy)
      subst hz
      rw [← dest_of_some hmove] at heq
      exact absurd (h.apart hmoves w hw x hx heq) hne

/-- What is left does not depend on the rounds. -/
theorem unique (h : Settles s moves final) (h' : Settles s moves other) (hmoves : OneToOne moves) :
    final = other := by
  funext x
  by_cases hx : x ∈ s
  · have hto := h.greatest hmoves (h'.apart hmoves) (fun x _ y => h'.within x y) x hx
    have hfrom := h'.greatest hmoves (h.apart hmoves) (fun x _ y => h.within x y) x hx
    cases hmove : final x with
    | some y => exact (hfrom y hmove).symm
    | none =>
      cases hmove' : other x with
      | none => rfl
      | some y =>
        rw [hto y hmove'] at hmove
        cases hmove
  · rw [h.eq_of_notMem hx, h'.eq_of_notMem hx]

end Settles
end Relocation
end NestWeaver
