import Mathlib.Data.List.MinMax
import Mathlib.Data.List.Sort

/-!
# The best of a sequence

Elements come one after the other, and a bounded heap keeps the best of those that have come: a new one is
put in as long as there is room, and afterwards in the place of the worst one if it is better.

When no two elements have one key, what is kept is the beginning of all of them in order
(`perm_keepBest`).
-/

set_option linter.all false

namespace NestWeaver
namespace TopK

variable {α κ : Type*} [LinearOrder κ] (key : α → κ)

/-- The order of the keys.  Less is better. -/
def Before (a b : α) : Prop := key a ≤ key b

instance : DecidableRel (Before key) := fun a b => inferInstanceAs (Decidable (key a ≤ key b))

instance : Std.Total (Before key) := ⟨fun a b => le_total (key a) (key b)⟩

instance : IsTrans α (Before key) := ⟨fun _ _ _ => le_trans⟩

/-- The elements in order. -/
def ranked (xs : List α) : List α := xs.insertionSort (Before key)

variable [DecidableEq α]

/-- The worst kept element makes room for a better one. -/
def offer (limit : ℕ) (heap : List α) (x : α) : List α :=
  if heap.length < limit then x :: heap
  else
    match heap.argmax key with
    | some worst => if key x < key worst then x :: heap.erase worst else heap
    | none => heap

def keepBest (limit : ℕ) (xs : List α) : List α := xs.foldl (offer key limit) []

variable {key} {xs front back : List α} {x y : α} {limit : ℕ}

/-! ## Inserting in order -/

omit [DecidableEq α] in
lemma orderedInsert_append_of_before (h : key x ≤ key y) (front back : List α) :
    (front ++ y :: back).orderedInsert (Before key) x =
      front.orderedInsert (Before key) x ++ y :: back := by
  have hxy : Before key x y := h
  induction front with
  | nil => simp [hxy]
  | cons z front ih =>
    by_cases hz : Before key x z
    · simp [hz]
    · simp [hz, ih]

omit [DecidableEq α] in
lemma orderedInsert_append_of_after (h : ∀ z ∈ front, key z < key x) (back : List α) :
    (front ++ back).orderedInsert (Before key) x = front ++ back.orderedInsert (Before key) x := by
  induction front with
  | nil => rfl
  | cons z front ih =>
    have hz : ¬Before key x z := not_le.mpr (h z List.mem_cons_self)
    rw [List.cons_append, List.orderedInsert_cons, if_neg hz,
      ih fun w hw => h w (List.mem_cons_of_mem _ hw)]
    rfl

omit [DecidableEq α] in
variable (key) in
lemma ranked_perm (xs : List α) : (ranked key xs).Perm xs := List.perm_insertionSort _ _

omit [DecidableEq α] in
variable (key) in
lemma pairwise_ranked (xs : List α) : (ranked key xs).Pairwise (Before key) :=
  List.pairwise_insertionSort _ _

omit [DecidableEq α] in
/-- Where no two elements have one key, the order in which they come does not matter. -/
lemma ranked_eq_of_perm {ys : List α} (hxs : (xs.map key).Nodup) (hperm : xs.Perm ys) :
    ranked key xs = ranked key ys := by
  refine List.Perm.eq_of_pairwise ?_ (pairwise_ranked key xs) (pairwise_ranked key ys)
    ((ranked_perm key xs).trans (hperm.trans (ranked_perm key ys).symm))
  intro a b ha hb hab hba
  have hmem : a ∈ xs ∧ b ∈ xs :=
    ⟨(ranked_perm key xs).mem_iff.mp ha, hperm.mem_iff.mpr ((ranked_perm key ys).mem_iff.mp hb)⟩
  exact List.inj_on_of_nodup_map hxs hmem.1 hmem.2 (le_antisymm hab hba)

omit [DecidableEq α] in
lemma ranked_concat (hxs : ((xs ++ [x]).map key).Nodup) :
    ranked key (xs ++ [x]) = (ranked key xs).orderedInsert (Before key) x := by
  rw [ranked_eq_of_perm hxs (List.perm_append_singleton x xs)]
  rfl

omit [DecidableEq α] in
/-- A list with more than `n` elements is cut around the last of the first `n + 1`. -/
lemma exists_cut {ys : List α} {n : ℕ} (hn : n < ys.length) :
    ∃ front last back, ys = front ++ last :: back ∧ front.length = n := by
  refine ⟨ys.take n, ys[n], ys.drop (n + 1), ?_, ?_⟩
  · rw [List.getElem_cons_drop, List.take_append_drop]
  · rw [List.length_take]
    exact Nat.min_eq_left hn.le

omit [DecidableEq α] in
lemma take_cut (front : List α) (y : α) (back : List α) :
    (front ++ y :: back).take (front.length + 1) = front ++ [y] := by
  rw [List.append_cons]
  exact List.take_left' (by rw [List.length_append, List.length_singleton])

/-! ## What is kept -/

omit [DecidableEq α] in
/-- The worst of the kept elements is the last of them. -/
lemma eq_last_of_mem_argmax {heap : List α} {last worst : α} (hheap : heap.Perm (front ++ [last]))
    (hkeys : ((front ++ [last]).map key).Nodup) (hle : ∀ z ∈ front, key z ≤ key last)
    (hworst : worst ∈ heap.argmax key) : worst = last := by
  have hworstMem : worst ∈ front ++ [last] := hheap.mem_iff.mp (List.argmax_mem hworst)
  have hlastMem : last ∈ front ++ [last] := List.mem_append_right _ List.mem_cons_self
  have hge : key last ≤ key worst := List.le_of_mem_argmax (hheap.mem_iff.mpr hlastMem) hworst
  have hle' : key worst ≤ key last := by
    obtain hz | hz := List.mem_append.mp hworstMem
    · exact hle worst hz
    · rw [List.mem_singleton.mp hz]
  exact List.inj_on_of_nodup_map hkeys hworstMem hlastMem (le_antisymm hle' hge)

/-- A better element takes the place of the last one. -/
lemma perm_replace {heap : List α} {last : α} (hheap : heap.Perm (front ++ [last])) (hbetter : key x < key last)
    (back : List α) :
    (x :: heap.erase last).Perm
      (((front ++ last :: back).orderedInsert (Before key) x).take (front.length + 1)) := by
  have herase : (heap.erase last).Perm front := by
    have h := (hheap.trans (List.perm_append_singleton last front)).erase last
    rwa [List.erase_cons_head] at h
  have hlength : front.length + 1 = (front.orderedInsert (Before key) x).length := by
    rw [List.orderedInsert_length]
  rw [orderedInsert_append_of_before hbetter.le, hlength, List.take_left]
  exact (herase.cons x).trans (List.perm_orderedInsert _ x _).symm

omit [DecidableEq α] in
/-- A worse element comes behind what is kept. -/
lemma take_insert_of_after {last : α} (hafter : ∀ z ∈ front ++ [last], key z < key x) (back : List α) :
    ((front ++ last :: back).orderedInsert (Before key) x).take (front.length + 1) = front ++ [last] := by
  rw [List.append_cons, orderedInsert_append_of_after hafter]
  exact List.take_left' (by rw [List.length_append, List.length_singleton])

/-- **One element more.** -/
lemma perm_offer {heap : List α} (hxs : ((xs ++ [x]).map key).Nodup)
    (hheap : heap.Perm ((ranked key xs).take limit)) :
    (offer key limit heap x).Perm ((ranked key (xs ++ [x])).take limit) := by
  rw [ranked_concat hxs]
  have hlength : heap.length = min limit (ranked key xs).length := by
    rw [hheap.length_eq, List.length_take]
  by_cases hroom : heap.length < limit
  · -- all are kept, and the new one with them
    have hall : (ranked key xs).take limit = ranked key xs := List.take_of_length_le (by omega)
    rw [offer, if_pos hroom, List.take_of_length_le]
    · rw [hall] at hheap
      exact (hheap.cons x).trans (List.perm_orderedInsert _ x _).symm
    · rw [List.orderedInsert_length]
      omega
  · rw [offer, if_neg hroom]
    cases hworst : heap.argmax key with
    | none =>
      obtain rfl := List.argmax_eq_none.mp hworst
      have hzero : limit = 0 := by simpa using hroom
      rw [hzero]
      exact .refl _
    | some worst =>
      obtain ⟨n, rfl⟩ : ∃ n, limit = n + 1 := by
        refine ⟨limit - 1, ?_⟩
        have hpos := List.length_pos_of_mem (List.argmax_mem hworst)
        omega
      have hsorted := pairwise_ranked key xs
      have hkeys : ((ranked key xs ++ [x]).map key).Nodup :=
        (((ranked_perm key xs).append_right [x]).map key).nodup_iff.mpr hxs
      obtain ⟨front, last, back, hsplit, rfl⟩ := exists_cut (by omega : n < (ranked key xs).length)
      rw [hsplit, take_cut] at hheap
      rw [hsplit, List.pairwise_append] at hsorted
      have hle : ∀ z ∈ front, key z ≤ key last := fun z hz => hsorted.2.2 z hz last List.mem_cons_self
      rw [hsplit, List.map_append, List.nodup_append] at hkeys
      have hkept : (front ++ [last]).Sublist (front ++ last :: back) :=
        (List.Sublist.refl front).append (List.singleton_sublist.mpr List.mem_cons_self)
      have hsame : worst = last := eq_last_of_mem_argmax hheap (hkeys.1.sublist (hkept.map key)) hle hworst
      simp only [hsame]
      rw [hsplit]
      by_cases hbetter : key x < key last
      · rw [if_pos hbetter]
        exact perm_replace hheap hbetter back
      · have hne : key last ≠ key x :=
          hkeys.2.2 (key last) (List.mem_map_of_mem (by simp)) (key x) (List.mem_map_of_mem (by simp))
        have hlast : key last < key x := lt_of_le_of_ne (not_lt.mp hbetter) hne
        have hafter : ∀ z ∈ front ++ [last], key z < key x := by
          intro z hz
          obtain hz | hz := List.mem_append.mp hz
          · exact (hle z hz).trans_lt hlast
          · rw [List.mem_singleton.mp hz]
            exact hlast
        rw [if_neg hbetter, take_insert_of_after hafter]
        exact hheap

/-- **The best are kept**, whatever the order in which the elements come. -/
theorem perm_keepBest (limit : ℕ) (hxs : (xs.map key).Nodup) :
    (keepBest key limit xs).Perm ((ranked key xs).take limit) := by
  induction xs using List.reverseRecOn with
  | nil => simp [keepBest, ranked]
  | append_singleton xs x ih =>
    rw [keepBest, List.foldl_concat]
    refine perm_offer hxs (ih ?_)
    rw [List.map_append] at hxs
    exact (List.nodup_append.mp hxs).1

omit [DecidableEq α] in
/-- Once more in order, the best are the beginning of all elements in order. -/
lemma ranked_of_perm_take {heap : List α} (hxs : (xs.map key).Nodup)
    (hperm : heap.Perm ((ranked key xs).take limit)) : ranked key heap = (ranked key xs).take limit := by
  have hnodup : (heap.map key).Nodup := by
    refine (hperm.map key).nodup_iff.mpr ?_
    exact (((ranked_perm key xs).map key).nodup_iff.mpr hxs).sublist ((List.take_sublist _ _).map key)
  rw [ranked_eq_of_perm hnodup hperm]
  exact ((pairwise_ranked key xs).sublist (List.take_sublist _ _)).insertionSort_eq

/-- In order they are the beginning of all of them in order. -/
theorem ranked_keepBest (hxs : (xs.map key).Nodup) :
    ranked key (keepBest key limit xs) = (ranked key xs).take limit :=
  ranked_of_perm_take hxs (perm_keepBest limit hxs)

end TopK
end NestWeaver
