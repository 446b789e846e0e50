import Mathlib.Data.List.Basic

/-!
# Origins

A list from which some elements are dropped.  Where one of the others was before the drop is its origin
(`origins`), and what was dropped in front of it is what tells its place from that (`getElem?_origins`).
-/

set_option linter.all false

namespace NestWeaver
namespace Origins

variable {α : Type*}

/-- Where the elements that stay were. -/
def origins (keep : α → Bool) : List α → List ℕ
  | [] => []
  | a :: l => if keep a then 0 :: (origins keep l).map (· + 1) else (origins keep l).map (· + 1)

variable {keep : α → Bool} {l : List α} {p q : ℕ}

lemma length_origins (keep : α → Bool) (l : List α) : (origins keep l).length = (l.filter keep).length := by
  induction l with
  | nil => rfl
  | cons a l ih =>
    rw [origins]
    by_cases ha : keep a = true
    · rw [if_pos ha, List.length_cons, List.length_map, ih, List.filter_cons_of_pos ha, List.length_cons]
    · rw [if_neg ha, List.length_map, ih, List.filter_cons_of_neg ha]

lemma exists_origin (h : p < (l.filter keep).length) : ∃ q, (origins keep l)[p]? = some q :=
  ⟨_, List.getElem?_eq_getElem (length_origins keep l ▸ h)⟩

/-- Before an element there are the same elements in both lists, but for those that are dropped. -/
lemma getElem?_origins (h : (origins keep l)[p]? = some q) :
    l[q]? = (l.filter keep)[p]? ∧ (l.take q).filter keep = (l.filter keep).take p := by
  induction l generalizing p q with
  | nil => simp [origins] at h
  | cons a l ih =>
    rw [origins] at h
    by_cases ha : keep a = true
    · rw [if_pos ha] at h
      rw [List.filter_cons_of_pos ha]
      cases p with
      | zero =>
        obtain rfl := Option.some.inj h
        exact ⟨rfl, rfl⟩
      | succ p =>
        rw [List.getElem?_cons_succ, List.getElem?_map, Option.map_eq_some_iff] at h
        obtain ⟨q, hq, rfl⟩ := h
        obtain ⟨hget, htake⟩ := ih hq
        exact ⟨hget, by rw [List.take_succ_cons, List.filter_cons_of_pos ha, htake, List.take_succ_cons]⟩
    · rw [if_neg ha, List.getElem?_map, Option.map_eq_some_iff] at h
      obtain ⟨q, hq, rfl⟩ := h
      obtain ⟨hget, htake⟩ := ih hq
      rw [List.filter_cons_of_neg ha]
      exact ⟨hget, by rw [List.take_succ_cons, List.filter_cons_of_neg ha, htake]⟩

end Origins
end NestWeaver
