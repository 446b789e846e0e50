import NestWeaver.Framework.TopK

/-!
# The best of parts

Elements are split into parts, the best of each part are kept in a bounded heap of its own, and heaps are
merged in pairs: what one has is offered to the other, in any order.

When no two elements have one key, what is kept in the end is the beginning of all elements in order, however
they were split and merged (`Schedule.perm_heap`).
-/

set_option linter.all false

namespace NestWeaver
namespace TopK

variable {α β κ : Type*} [LinearOrder κ] [DecidableEq α] (key : α → κ)

/-- How elements are split into parts, and how the heaps of two parts are merged: what the second has is read
off in an order of its own. -/
inductive Schedule (β α : Type*)
  | chunk (items : List β)
  | join (left right : Schedule β α) (drain : {f : List α → List α // ∀ heap, (f heap).Perm heap})

namespace Schedule

def items : Schedule β α → List β
  | chunk items => items
  | join left right _ => left.items ++ right.items

/-- What is kept of the elements that are candidates. -/
def heap (candidate : β → Option α) (limit : ℕ) : Schedule β α → List α
  | chunk items => keepBest key limit (items.filterMap candidate)
  | join left right drain =>
    (drain.1 (right.heap candidate limit)).foldl (offer key limit) (left.heap candidate limit)

end Schedule

variable {key} {xs ys left right : List α} {x : α} {limit : ℕ}

lemma perm_foldl_offer (hnodup : ((xs ++ ys).map key).Nodup) (h : left.Perm ((ranked key xs).take limit)) :
    (ys.foldl (offer key limit) left).Perm ((ranked key (xs ++ ys)).take limit) := by
  induction ys generalizing xs left with
  | nil => rwa [List.foldl_nil, List.append_nil]
  | cons y ys ih =>
    rw [List.append_cons] at hnodup ⊢
    rw [List.foldl_cons]
    refine ih hnodup (perm_offer ?_ h)
    rw [List.map_append] at hnodup
    exact (List.nodup_append.mp hnodup).1

omit [DecidableEq α] in
/-- An element that enough others are better than is not among the best. -/
lemma take_ranked_concat (hnodup : ((xs ++ [x]).map key).Nodup)
    (hbetter : limit ≤ xs.countP fun z => key z < key x) :
    (ranked key (xs ++ [x])).take limit = (ranked key xs).take limit := by
  rw [ranked_concat hnodup]
  have hfront : ∀ z ∈ (ranked key xs).take limit, key z < key x := by
    intro z hz
    by_contra hnot
    obtain ⟨i, hi, rfl⟩ := List.mem_iff_getElem.mp hz
    rw [List.length_take] at hi
    rw [List.getElem_take] at hnot
    -- neither this element nor a later one is better
    have hlater : ((ranked key xs).drop i).countP (fun z => key z < key x) = 0 := by
      rw [List.countP_eq_zero]
      intro y hy
      have hle : key (ranked key xs)[i] ≤ key y := by
        rw [List.drop_eq_getElem_cons (by omega)] at hy
        obtain rfl | hy := List.mem_cons.mp hy
        · exact le_refl _
        · have hsorted := pairwise_ranked key xs
          rw [← List.take_append_drop i (ranked key xs), List.pairwise_append,
            List.drop_eq_getElem_cons (by omega), List.pairwise_cons] at hsorted
          exact hsorted.2.1.1 y hy
      simpa using (not_lt.mp hnot).trans hle
    have hcount := (ranked_perm key xs).countP_eq fun z => decide (key z < key x)
    rw [← List.take_append_drop i (ranked key xs), List.countP_append, hlater, Nat.add_zero] at hcount
    have hle := List.countP_le_length (p := fun z => decide (key z < key x)) (l := (ranked key xs).take i)
    rw [List.length_take] at hle
    omega
  have hlength : limit ≤ (ranked key xs).length := by
    rw [(ranked_perm key xs).length_eq]
    exact hbetter.trans List.countP_le_length
  conv_lhs => rw [← List.take_append_drop limit (ranked key xs)]
  rw [orderedInsert_append_of_after hfront, List.take_left' (by rw [List.length_take]; omega)]

omit [DecidableEq α] in
/-- Elements that all of enough others are better than are not among the best. -/
lemma take_ranked_append {kept : List α} (hnodup : ((xs ++ kept ++ ys).map key).Nodup)
    (hkept : ys ≠ [] → limit ≤ kept.length) (hbetter : ∀ k ∈ kept, ∀ y ∈ ys, key k < key y) :
    (ranked key (xs ++ kept ++ ys)).take limit = (ranked key (xs ++ kept)).take limit := by
  induction ys using List.reverseRecOn with
  | nil => rw [List.append_nil]
  | append_singleton ys y ih =>
    rw [← List.append_assoc] at hnodup ⊢
    have hrest : ((xs ++ kept ++ ys).map key).Nodup := by
      rw [List.map_append] at hnodup
      exact (List.nodup_append.mp hnodup).1
    have hall : kept.countP (fun k => key k < key y) = kept.length := by
      rw [List.countP_eq_length]
      intro k hk
      simpa using hbetter k hk y (List.mem_append_right _ List.mem_cons_self)
    have hmany := hkept (List.append_ne_nil_of_right_ne_nil _ (List.cons_ne_nil _ _))
    rw [take_ranked_concat hnodup (by rw [List.countP_append, List.countP_append, hall]; omega)]
    exact ih hrest (fun _ => hmany) fun k hk y' hy' => hbetter k hk y' (List.mem_append_left _ hy')

/-- **Two parts.**  The best of both are among the best of each. -/
lemma perm_merge (hnodup : ((xs ++ ys).map key).Nodup) (hleft : left.Perm ((ranked key xs).take limit))
    (hright : right.Perm ((ranked key ys).take limit)) :
    (right.foldl (offer key limit) left).Perm ((ranked key (xs ++ ys)).take limit) := by
  set kept := (ranked key ys).take limit
  set rest := (ranked key ys).drop limit
  have hsplit : kept ++ rest = ranked key ys := List.take_append_drop limit _
  have hall : (xs ++ ys).Perm (xs ++ kept ++ rest) := by
    rw [List.append_assoc, hsplit]
    exact (ranked_perm key ys).symm.append_left xs
  have hnodup' : ((xs ++ kept ++ rest).map key).Nodup := ((hall.map key).nodup_iff).mp hnodup
  have hkept : ((xs ++ kept).map key).Nodup := by
    rw [List.map_append] at hnodup'
    exact (List.nodup_append.mp hnodup').1
  have hswap : (xs ++ right).Perm (xs ++ kept) := hright.append_left xs
  have hfold := perm_foldl_offer (((hswap.map key).nodup_iff).mpr hkept) hleft
  rw [ranked_eq_of_perm (((hswap.map key).nodup_iff).mpr hkept) hswap] at hfold
  rw [ranked_eq_of_perm hnodup hall, take_ranked_append hnodup' ?_ ?_]
  · exact hfold
  · intro hrest
    have hlength := List.length_pos_of_ne_nil hrest
    rw [List.length_drop] at hlength
    rw [List.length_take]
    omega
  · intro k hk y hy
    have hsorted := pairwise_ranked key ys
    rw [← hsplit, List.pairwise_append] at hsorted
    refine lt_of_le_of_ne (hsorted.2.2 k hk y hy) fun heq => ?_
    rw [List.map_append, List.nodup_append] at hnodup'
    exact hnodup'.2.2 (key k) (List.mem_map_of_mem (List.mem_append_right xs hk)) (key y)
      (List.mem_map_of_mem hy) heq

namespace Schedule

variable {candidate : β → Option α}

/-- **The best are kept**, however the elements were split and merged. -/
theorem perm_heap (limit : ℕ) (t : Schedule β α) (hnodup : ((t.items.filterMap candidate).map key).Nodup) :
    (t.heap key candidate limit).Perm ((ranked key (t.items.filterMap candidate)).take limit) := by
  induction t with
  | chunk items => exact perm_keepBest limit hnodup
  | join left right drain ihleft ihright =>
    rw [items, List.filterMap_append] at hnodup ⊢
    have hparts := hnodup
    rw [List.map_append, List.nodup_append] at hparts
    exact perm_merge hnodup (ihleft hparts.1) ((drain.2 _).trans (ihright hparts.2.1))

end Schedule

end TopK
end NestWeaver
