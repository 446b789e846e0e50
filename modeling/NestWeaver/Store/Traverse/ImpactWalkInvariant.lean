import NestWeaver.Store.Traverse.ImpactWalk

/-!
# What the impact walk keeps

What a row can do to the state (`walkRow_cases`) and what a pass can do (`walkStep_cases`), the
invariant of the walk (`WalkInv`), and that the walk ends (`runImpactWalk_impactWalk`).

The invariant has two halves.  The score table and the node table agree: the target has score 1
and no node, every other scored symbol has a node that carries its score.  And the queue is a
breadth-first frontier: sorted by depth, within one level, no node deeper than the level below.
-/

set_option linter.all false

namespace NestWeaver
namespace Traverse

open WorkLoop

variable {a : WalkArgs} {st : WalkState} {row : CallerRow} {u v : String} {d k : ℕ} {s x : ℚ}

/-! ## The effect of a row and of a pass -/

lemma WalkState.score_improve :
    (st.improve d row x).score v = if v = row.uid then x else st.score v := by
  unfold score improve
  split_ifs with h
  · rw [h, AList.lookup_insert, Option.getD_some]
  · rw [AList.lookup_insert_ne h]

lemma WalkState.lookup_improve_ne (h : v ≠ row.uid) :
    (st.improve d row x).resultMap.lookup v = st.resultMap.lookup v :=
  AList.lookup_insert_ne h

lemma WalkState.lookup_improve_self :
    (st.improve d row x).resultMap.lookup row.uid = some
      { uid := row.uid, name := row.name, filePath := row.filePath, startLine := row.startLine
        edgeType := row.edgeType, confidence := row.confidence, depth := d + 1
        impactScore := x } :=
  AList.lookup_insert _

lemma WalkState.queue_improve : (st.improve d row x).queue = st.queue ++ [(row.uid, d + 1)] := rfl

/-- What a row can do: it is passed over, pruned, no better than what is known, or recorded. -/
lemma walkRow_cases (a : WalkArgs) (d : ℕ) (s : ℚ) (st : WalkState) (row : CallerRow) :
    (¬a.Admits row.uid ∧ walkRow a d s st row = st) ∨
    (a.Admits row.uid ∧ s * row.confidence < a.minScore ∧
      walkRow a d s st row = { st with truncatedByThreshold := true }) ∨
    (a.Admits row.uid ∧ a.minScore ≤ s * row.confidence ∧ s * row.confidence ≤ st.score row.uid ∧
      walkRow a d s st row = st) ∨
    (a.Admits row.uid ∧ a.minScore ≤ s * row.confidence ∧ st.score row.uid < s * row.confidence ∧
      walkRow a d s st row = st.improve d row (s * row.confidence)) := by
  unfold walkRow
  by_cases hadm : a.Admits row.uid
  · by_cases hprune : s * row.confidence < a.minScore
    · exact .inr (.inl ⟨hadm, hprune, by simp [hadm, hprune]⟩)
    · by_cases hbetter : s * row.confidence > st.score row.uid
      · exact .inr (.inr (.inr ⟨hadm, not_lt.mp hprune, hbetter,
          by simp [hadm, hprune, hbetter]⟩))
      · exact .inr (.inr (.inl ⟨hadm, not_lt.mp hprune, not_lt.mp hbetter,
          by simp [hadm, hprune, hbetter]⟩))
  · exact .inl ⟨hadm, by simp [hadm]⟩

/-- What a pass can do: the entry stands at the depth limit, or its callers are walked. -/
lemma walkStep_cases {st' : WalkState} (h : walkStep a st = .inl st') :
    ∃ u d rest, st.queue = (u, d) :: rest ∧
      ((a.maxDepth ≤ d ∧ st' = { st.pop rest with truncatedByDepth := true }) ∨
        (d < a.maxDepth ∧ st' = expand a (st.pop rest) u d)) := by
  unfold walkStep at h
  split at h
  · cases h
  · rename_i u d rest hqueue
    refine ⟨u, d, rest, hqueue, ?_⟩
    dsimp only at h
    split_ifs at h with hcancel hdepth
    · cases h
      exact .inl ⟨hdepth, rfl⟩
    · cases h
      exact .inr ⟨not_le.mp hdepth, rfl⟩

lemma walkStep_ok {r : ImpactResult} (h : walkStep a st = .inr (.ok r)) :
    st.queue = [] ∧ r = st.result a := by
  unfold walkStep at h
  split at h
  · rename_i hqueue
    cases h
    exact ⟨hqueue, rfl⟩
  · dsimp only at h
    split_ifs at h
    cases h

/-- Without a cancel flag a walk that ends has a result. -/
lemma walkStep_not_error (hcancel : a.cancel = none) {e : StoreError} :
    walkStep a st ≠ .inr (.error e) := by
  unfold walkStep
  split
  · simp
  · dsimp only
    split_ifs with h
    · simp [hcancel] at h
    · simp
    · simp

/-- A property that every delivered row keeps is kept by the expansion of an entry. -/
lemma expand_induction {P : WalkState → Prop} (h : P { st with queries := st.queries + 1 })
    (hrow : ∀ st' row, row ∈ a.callers st u d → P st' → P (walkRow a d (st.score u) st' row)) :
    P (expand a st u d) :=
  List.foldlRecOn (motive := P) _ _ h fun st' hst' row hmem => hrow st' row hmem hst'

/-! ## The invariant -/

/-- The invariant, with `d` the depth of the entry in hand. -/
structure WalkInv (a : WalkArgs) (d : ℕ) (st : WalkState) : Prop where
  target : st.score a.targetUid = 1
  target_unlabelled : st.resultMap.lookup a.targetUid = none
  labelled : ∀ v n, st.resultMap.lookup v = some n →
    n.uid = v ∧ st.score v = n.impactScore ∧ 0 < n.impactScore
  unlabelled : ∀ v, v ≠ a.targetUid → st.resultMap.lookup v = none → st.score v = 0
  depth_le : ∀ v n, st.resultMap.lookup v = some n → n.depth ≤ d + 1
  sorted : st.queue.Pairwise fun e f => e.2 ≤ f.2
  level : ∀ e ∈ st.queue, d ≤ e.2 ∧ e.2 ≤ d + 1
  target_entry : ∀ k, (a.targetUid, k) ∈ st.queue → k = 0

lemma WalkInv.score_nonneg (h : WalkInv a d st) (v : String) : 0 ≤ st.score v := by
  by_cases hv : v = a.targetUid
  · rw [hv, h.target]
    exact zero_le_one
  · cases hn : st.resultMap.lookup v with
    | none => exact (h.unlabelled v hv hn).ge
    | some n =>
      obtain ⟨-, hscore, hpos⟩ := h.labelled v n hn
      exact hscore ▸ hpos.le

/-- A symbol with a positive score is the target or has a node. -/
lemma WalkInv.exists_label (h : WalkInv a d st) (hv : v ≠ a.targetUid) (hpos : 0 < st.score v) :
    ∃ n, st.resultMap.lookup v = some n := by
  cases hn : st.resultMap.lookup v with
  | none => exact absurd (h.unlabelled v hv hn) hpos.ne'
  | some n => exact ⟨n, rfl⟩

lemma WalkInv.init (a : WalkArgs) : WalkInv a 0 a.init where
  target := by rw [WalkState.score, WalkArgs.init, AList.lookup_insert, Option.getD_some]
  target_unlabelled := AList.lookup_empty _
  labelled v n h := by simp [WalkArgs.init, AList.lookup_empty] at h
  unlabelled v hv _ := by
    rw [WalkState.score, WalkArgs.init, AList.lookup_insert_ne hv, AList.lookup_empty,
      Option.getD_none]
  depth_le v n h := by simp [WalkArgs.init, AList.lookup_empty] at h
  sorted := by simp [WalkArgs.init]
  level := by simp [WalkArgs.init]
  target_entry k h := by simpa [WalkArgs.init] using h

lemma WalkInv.pop {rest : List (String × ℕ)} (h : WalkInv a k st)
    (hqueue : st.queue = (u, d) :: rest) : WalkInv a d (st.pop rest) := by
  have hlevel := h.level
  have hsorted := h.sorted
  rw [hqueue] at hlevel hsorted
  obtain ⟨hle, hge⟩ := hlevel (u, d) List.mem_cons_self
  exact
    { target := h.target
      target_unlabelled := h.target_unlabelled
      labelled := h.labelled
      unlabelled := h.unlabelled
      depth_le := fun v n hn => (h.depth_le v n hn).trans (by simpa using hle)
      sorted := (List.pairwise_cons.mp hsorted).2
      level := fun e he =>
        ⟨(List.pairwise_cons.mp hsorted).1 e he,
          (hlevel e (List.mem_cons_of_mem _ he)).2.trans (by simpa using hle)⟩
      target_entry := fun j hj => h.target_entry j (by rw [hqueue]; exact List.mem_cons_of_mem _ hj) }

lemma WalkInv.improve (h : WalkInv a d st) (hrow : row.uid ≠ a.targetUid)
    (hx : st.score row.uid < x) : WalkInv a d (st.improve d row x) where
  target := by rw [WalkState.score_improve, if_neg hrow.symm, h.target]
  target_unlabelled := by rw [WalkState.lookup_improve_ne hrow.symm, h.target_unlabelled]
  labelled v n hn := by
    by_cases hv : v = row.uid
    · subst hv
      rw [WalkState.lookup_improve_self] at hn
      cases hn
      exact ⟨rfl, by rw [WalkState.score_improve, if_pos rfl], (h.score_nonneg _).trans_lt hx⟩
    · rw [WalkState.lookup_improve_ne hv] at hn
      rw [WalkState.score_improve, if_neg hv]
      exact h.labelled v n hn
  unlabelled v hv hn := by
    by_cases hrow' : v = row.uid
    · subst hrow'
      rw [WalkState.lookup_improve_self] at hn
      cases hn
    · rw [WalkState.lookup_improve_ne hrow'] at hn
      rw [WalkState.score_improve, if_neg hrow']
      exact h.unlabelled v hv hn
  depth_le v n hn := by
    by_cases hv : v = row.uid
    · subst hv
      rw [WalkState.lookup_improve_self] at hn
      cases hn
      exact le_rfl
    · rw [WalkState.lookup_improve_ne hv] at hn
      exact h.depth_le v n hn
  sorted := by
    rw [WalkState.queue_improve, List.pairwise_append]
    refine ⟨h.sorted, List.pairwise_singleton _ _, fun e he f hf => ?_⟩
    rw [List.mem_singleton.mp hf]
    exact (h.level e he).2
  level e he := by
    rw [WalkState.queue_improve, List.mem_append] at he
    rcases he with he | he
    · exact h.level e he
    · rw [List.mem_singleton.mp he]
      exact ⟨Nat.le_succ d, le_rfl⟩
  target_entry j hj := by
    rw [WalkState.queue_improve, List.mem_append] at hj
    rcases hj with hj | hj
    · exact h.target_entry j hj
    · exact absurd (congrArg Prod.fst (List.mem_singleton.mp hj)).symm hrow

lemma WalkInv.walkRow (h : WalkInv a d st) : WalkInv a d (walkRow a d s st row) := by
  obtain ⟨-, heq⟩ | ⟨-, -, heq⟩ | ⟨-, -, -, heq⟩ | ⟨hadm, -, hlt, heq⟩ :=
    walkRow_cases a d s st row
  · rwa [heq]
  · rw [heq]
    exact { h with }
  · rwa [heq]
  · rw [heq]
    exact h.improve hadm.1 hlt

lemma WalkInv.expand (h : WalkInv a d st) : WalkInv a d (expand a st u d) :=
  expand_induction (P := WalkInv a d) { h with } fun _ _ _ hst => hst.walkRow

/-- A pass keeps the invariant, at the depth of the entry it takes up. -/
lemma walkInv_step {st' : WalkState} (h : WalkInv a k st) (hstep : walkStep a st = .inl st') :
    ∃ d, WalkInv a d st' := by
  obtain ⟨u, d, rest, hqueue, ⟨-, rfl⟩ | ⟨-, rfl⟩⟩ := walkStep_cases hstep
  · exact ⟨d, { h.pop hqueue with }⟩
  · exact ⟨d, (h.pop hqueue).expand⟩

/-- The invariant holds in every state of a walk. -/
lemma walkInv_of_reaches (h : Reaches (walkStep a) a.init st) : ∃ d, WalkInv a d st :=
  h.invariant (P := fun st => ∃ d, WalkInv a d st) ⟨0, .init a⟩
    fun _ _ ⟨_, hinv⟩ hstep => walkInv_step hinv hstep

/-- What holds of the uid, the name, the path and the line of every row holds of every node. -/
lemma node_of_rows {D : String → String → String → ℕ → Prop}
    (hrows : ∀ q v c types row, row ∈ a.directCallers q v c types →
      D row.uid row.name row.filePath row.startLine)
    (h : Reaches (walkStep a) a.init st) :
    ∀ v n, st.resultMap.lookup v = some n → D n.uid n.name n.filePath n.startLine := by
  refine h.invariant (P := fun st => ∀ v n, st.resultMap.lookup v = some n →
    D n.uid n.name n.filePath n.startLine) ?_ ?_
  · intro v n hn
    simp [WalkArgs.init, AList.lookup_empty] at hn
  · intro t t' ht hstep
    obtain ⟨u, d, rest, -, ⟨-, rfl⟩ | ⟨-, rfl⟩⟩ := walkStep_cases hstep
    · exact ht
    refine expand_induction (P := fun t => ∀ v n, t.resultMap.lookup v = some n →
      D n.uid n.name n.filePath n.startLine) ht fun t' row hmem ht' v n hn => ?_
    obtain ⟨-, heq⟩ | ⟨-, -, heq⟩ | ⟨-, -, -, heq⟩ | ⟨-, -, -, heq⟩ :=
      walkRow_cases a d ((t.pop rest).score u) t' row
    · exact ht' v n (heq ▸ hn)
    · rw [heq] at hn
      exact ht' v n hn
    · exact ht' v n (heq ▸ hn)
    · rw [heq] at hn
      by_cases hv : v = row.uid
      · subst hv
        rw [WalkState.lookup_improve_self] at hn
        cases hn
        exact hrows _ _ _ _ row hmem
      · rw [WalkState.lookup_improve_ne hv] at hn
        exact ht' v n hn

/-! ## Termination -/

/-- An expansion only appends entries one level below. -/
lemma expand_queue (a : WalkArgs) (st : WalkState) (u : String) (d : ℕ) :
    ∃ added : List (String × ℕ), (expand a st u d).queue = st.queue ++ added ∧
      ∀ e ∈ added, e.2 = d + 1 := by
  refine expand_induction
    (P := fun st' => ∃ added : List (String × ℕ), st'.queue = st.queue ++ added ∧
      ∀ e ∈ added, e.2 = d + 1) ⟨[], by simp⟩ ?_
  rintro st' row - ⟨added, hqueue, hadded⟩
  obtain ⟨-, heq⟩ | ⟨-, -, heq⟩ | ⟨-, -, -, heq⟩ | ⟨-, -, -, heq⟩ :=
    walkRow_cases a d (st.score u) st' row
  · exact ⟨added, by rw [heq, hqueue], hadded⟩
  · exact ⟨added, by rw [heq, hqueue], hadded⟩
  · exact ⟨added, by rw [heq, hqueue], hadded⟩
  · refine ⟨added ++ [(row.uid, d + 1)], ?_, ?_⟩
    · rw [heq, WalkState.queue_improve, hqueue, List.append_assoc]
    · intro e he
      rcases List.mem_append.mp he with he | he
      · exact hadded e he
      · rw [List.mem_singleton.mp he]

/-- The rank of an entry: its distance from the depth limit. -/
def WalkArgs.rank (a : WalkArgs) (entry : String × ℕ) : ℕ := a.maxDepth - entry.2

/-- An entry is replaced by entries one level deeper, down to the depth limit. -/
lemma walkStep_decreases (a : WalkArgs) (st st' : WalkState) (h : walkStep a st = .inl st') :
    Relation.CutExpand (· < ·) ((st'.queue.map a.rank : List ℕ) : Multiset ℕ)
      ((st.queue.map a.rank : List ℕ) : Multiset ℕ) := by
  obtain ⟨u, d, rest, hqueue, ⟨-, rfl⟩ | ⟨hdepth, rfl⟩⟩ := walkStep_cases h
  · have hless := requeue_decreases a.rank (u, d) rest [] (by simp)
    rwa [List.append_nil, ← hqueue] at hless
  · obtain ⟨added, hadded, hlevel⟩ := expand_queue a (st.pop rest) u d
    have hless := requeue_decreases a.rank (u, d) rest added fun e he => by
      have := hlevel e he
      simp only [WalkArgs.rank]
      omega
    rw [← hqueue] at hless
    rw [hadded]
    exact hless

/-- The result of the walk. -/
def impactWalk (a : WalkArgs) : Except StoreError ImpactResult :=
  loop (requeue_wellFounded a.rank WalkState.queue) (walkStep_decreases a) a.init

/-- **The walk ends**, on every graph and in every order of delivery. -/
theorem runImpactWalk_impactWalk (a : WalkArgs) :
    ∃ fuel, runImpactWalk a fuel = some (impactWalk a) :=
  runLoop_loop (requeue_wellFounded a.rank WalkState.queue) (walkStep_decreases a) a.init

lemma impactWalk_eq_of_run {a : WalkArgs} {fuel : ℕ} {r : Except StoreError ImpactResult}
    (h : runImpactWalk a fuel = some r) : impactWalk a = r :=
  loop_eq_of_runLoop (requeue_wellFounded a.rank WalkState.queue) (walkStep_decreases a) h

end Traverse
end NestWeaver
