import Mathlib.Data.Finset.Insert
import Mathlib.Data.List.Nodup

/-!
# First-seen deduplication

Keeping of each key the first element that has it, in order, with a set of the keys seen so far.
An element survives exactly when it is the first of its key (`mem_firstSeen`), so a search that
only looks at keys finds the same element before and after (`find?_firstSeen`).
-/

set_option linter.all false

namespace NestWeaver

variable {α κ : Type*} [DecidableEq κ] (key : α → κ)

/-- One element of the loop. -/
def firstSeenStep (st : Finset κ × List α) (x : α) : Finset κ × List α :=
  if key x ∈ st.1 then st else (insert (key x) st.1, st.2 ++ [x])

/-- Of each key the first element, in order. -/
def firstSeen (xs : List α) : List α := (xs.foldl (firstSeenStep key) (∅, [])).2

/-- The loop invariant: the seen set holds the keys of the processed elements, and the survivors
are those that come first. -/
lemma firstSeen_foldl (done xs : List α) (seen : Finset κ) (out : List α)
    (hseen : ∀ k, k ∈ seen ↔ ∃ x ∈ done, key x = k)
    (hout : ∀ k, out.find? (fun y => key y = k) = done.find? fun y => key y = k)
    (hnodup : (out.map key).Nodup) (k : κ) :
    ((xs.foldl (firstSeenStep key) (seen, out)).2.find? fun y => key y = k) =
        ((done ++ xs).find? fun y => key y = k) ∧
      ((xs.foldl (firstSeenStep key) (seen, out)).2.map key).Nodup := by
  induction xs generalizing done seen out with
  | nil => exact ⟨by simpa using hout k, hnodup⟩
  | cons x xs ih =>
    rw [List.foldl_cons, List.append_cons]
    by_cases hx : key x ∈ seen
    · -- the key was seen, and the element is dropped
      have hstep : firstSeenStep key (seen, out) x = (seen, out) := if_pos hx
      obtain ⟨y, hy, hyx⟩ := (hseen _).mp hx
      rw [hstep]
      refine ih (done ++ [x]) seen out (fun k => ?_) (fun k => ?_) hnodup
      · rw [hseen]
        simp only [List.mem_append, List.mem_singleton]
        constructor
        · exact fun ⟨z, hz, hk⟩ => ⟨z, .inl hz, hk⟩
        · rintro ⟨z, hz | rfl, hk⟩
          · exact ⟨z, hz, hk⟩
          · exact ⟨y, hy, hyx.trans hk⟩
      · rw [hout, List.find?_append]
        cases hfind : done.find? fun y => key y = k with
        | some z => rfl
        | none =>
          have hne : key x ≠ k := fun hk =>
            absurd (hyx.trans hk) (by simpa using List.find?_eq_none.mp hfind y hy)
          simp [hne]
    · have hstep : firstSeenStep key (seen, out) x = (insert (key x) seen, out ++ [x]) := if_neg hx
      have hfresh : ∀ y ∈ done, key y ≠ key x := fun y hy h => hx ((hseen _).mpr ⟨y, hy, h⟩)
      rw [hstep]
      refine ih (done ++ [x]) _ (out ++ [x]) (fun k => ?_) (fun k => ?_) ?_
      · rw [Finset.mem_insert, hseen]
        simp only [List.mem_append, List.mem_singleton]
        constructor
        · rintro (rfl | ⟨z, hz, hk⟩)
          · exact ⟨x, .inr rfl, rfl⟩
          · exact ⟨z, .inl hz, hk⟩
        · rintro ⟨z, hz | rfl, hk⟩
          · exact .inr ⟨z, hz, hk⟩
          · exact .inl hk.symm
      · rw [List.find?_append, List.find?_append, hout]
      · rw [List.map_append, List.nodup_append]
        refine ⟨hnodup, by simp, ?_⟩
        rintro k hk k' hk' rfl
        obtain ⟨y, hy, rfl⟩ := List.mem_map.mp hk
        obtain ⟨z, hz, hzy⟩ := List.mem_map.mp hk'
        have hfind : (done.find? fun w => key w = key y).isSome := by
          rw [← hout, List.find?_isSome]
          exact ⟨y, hy, by simp⟩
        obtain ⟨w, hw, hwy⟩ := List.find?_isSome.mp hfind
        rw [List.mem_singleton.mp hz] at hzy
        exact hfresh w hw ((of_decide_eq_true hwy).trans hzy.symm)

/-- A search by key finds the same element before and after. -/
lemma find?_firstSeen (xs : List α) (k : κ) :
    ((firstSeen key xs).find? fun y => key y = k) = xs.find? fun y => key y = k := by
  have h := firstSeen_foldl key [] xs ∅ [] (by simp) (by simp) (by simp) k
  simpa [firstSeen] using h.1

lemma nodup_firstSeen (xs : List α) : ((firstSeen key xs).map key).Nodup := by
  cases xs with
  | nil => simp [firstSeen]
  | cons x xs => exact (firstSeen_foldl key [] _ ∅ [] (by simp) (by simp) (by simp) (key x)).2

variable {key}

/-- An element survives exactly when it is the first of its key. -/
lemma mem_firstSeen {xs : List α} {x : α} :
    x ∈ firstSeen key xs ↔ xs.find? (fun y => key y = key x) = some x := by
  rw [← find?_firstSeen]
  constructor
  · intro hx
    cases hfind : (firstSeen key xs).find? fun y => key y = key x with
    | none => exact absurd (List.find?_eq_none.mp hfind x hx) (by simp)
    | some y =>
      have hy : key y = key x := by simpa using List.find?_some hfind
      have hinj := List.inj_on_of_nodup_map (nodup_firstSeen key xs)
      rw [hinj (List.mem_of_find?_eq_some hfind) hx hy]
  · exact List.mem_of_find?_eq_some

lemma mem_of_mem_firstSeen {xs : List α} {x : α} (h : x ∈ firstSeen key xs) : x ∈ xs :=
  List.mem_of_find?_eq_some (mem_firstSeen.mp h)

lemma mem_firstSeen_id {xs : List κ} {x : κ} : x ∈ firstSeen id xs ↔ x ∈ xs := by
  refine ⟨mem_of_mem_firstSeen, fun hx => ?_⟩
  rw [mem_firstSeen]
  have hsome : (xs.find? fun y => id y = id x).isSome := List.find?_isSome.mpr ⟨x, hx, by simp⟩
  obtain ⟨y, hy⟩ := Option.isSome_iff_exists.mp hsome
  have hyx : y = x := by simpa using List.find?_some hy
  rw [hy, hyx]

/-- The seen set after the loop: the keys seen before and those of the elements. -/
lemma mem_foldl_firstSeenStep {xs : List α} {st : Finset κ × List α} {k : κ} :
    k ∈ (xs.foldl (firstSeenStep key) st).1 ↔ k ∈ st.1 ∨ ∃ x ∈ xs, key x = k := by
  induction xs generalizing st with
  | nil => simp
  | cons x xs ih =>
    rw [List.foldl_cons, ih, List.exists_mem_cons_iff, ← or_assoc]
    refine or_congr_left ?_
    unfold firstSeenStep
    split_ifs with hx
    · exact ⟨.inl, fun h => h.elim id fun hk => hk ▸ hx⟩
    · rw [Finset.mem_insert, or_comm, eq_comm]

/-- A search for the first hit of a function of the key finds the same hit before and after. -/
lemma findSome?_firstSeen {β : Type*} {f : α → Option β} {xs : List α}
    (hf : ∀ x ∈ xs, ∀ y ∈ xs, key x = key y → f x = f y) :
    (firstSeen key xs).findSome? f = xs.findSome? f := by
  induction xs using List.reverseRecOn with
  | nil => rfl
  | append_singleton xs x ih =>
    have hih := ih fun y hy z hz =>
      hf y (List.mem_append_left _ hy) z (List.mem_append_left _ hz)
    unfold firstSeen at hih ⊢
    rw [List.foldl_append, List.foldl_cons, List.foldl_nil, List.findSome?_append, firstSeenStep]
    split_ifs with hx
    · -- the key was seen, and the element that had it gives the same hit
      obtain ⟨y, hy, hyx⟩ := (mem_foldl_firstSeenStep.mp hx).resolve_left (Finset.notMem_empty _)
      have hsame : f x = f y :=
        hf x (List.mem_append_right _ List.mem_cons_self) y (List.mem_append_left _ hy) hyx.symm
      rw [hih]
      cases hfind : xs.findSome? f with
      | some b => rfl
      | none =>
        have hnone : f y = none := List.findSome?_eq_none_iff.mp hfind y hy
        simp [hsame, hnone]
    · rw [List.findSome?_append, hih]

end NestWeaver
