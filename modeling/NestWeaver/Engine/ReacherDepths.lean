import NestWeaver.Engine.ImpactReachers
import NestWeaver.Store.Traverse.ImpactDepths

/-!
# What the in-memory walk finds

`impact_reachers_in_memory` ends on every graph (`reachers`).  It finds every symbol that a path within the
limits reaches (`exists_reacher`), and the depths at which it finds them are the lengths of the shortest
paths exactly when these have the greatest products (`reachers_depths_iff`).
-/

set_option linter.all false

namespace NestWeaver
namespace AffectedTests

open WorkLoop Traverse

/-- The rank of an entry: its distance from the depth limit. -/
def reacherRank (maxDepth : ℕ) (entry : String × ℕ) : ℕ := maxDepth - entry.2

variable {seed : String} {adj : RevImpactAdj} {maxDepth : ℕ} {minConfidence : ℚ}

/-- An expansion only appends entries one level below. -/
lemma queue_reacherRows (seed : String) (minConfidence : ℚ) (callers : List RevCaller) (depth : ℕ)
    (parentScore : ℚ) (st : ReacherState) :
    ∃ added : List (String × ℕ),
      (callers.foldl (reacherRow seed minConfidence depth parentScore) st).queue = st.queue ++ added ∧
        ∀ e ∈ added, e.2 = depth + 1 := by
  induction callers generalizing st with
  | nil => exact ⟨[], by simp⟩
  | cons c callers ih =>
    obtain ⟨added, hqueue, hlevel⟩ := ih (reacherRow seed minConfidence depth parentScore st c)
    have hnone : ∃ first : List (String × ℕ), st.queue = st.queue ++ first ∧
        ∀ e ∈ first, e.2 = depth + 1 := ⟨[], by simp⟩
    have hrow : ∃ first : List (String × ℕ),
        (reacherRow seed minConfidence depth parentScore st c).queue = st.queue ++ first ∧
          ∀ e ∈ first, e.2 = depth + 1 := by
      unfold reacherRow
      dsimp only
      split_ifs
      · exact hnone
      · exact hnone
      · exact hnone
      · refine ⟨_, rfl, fun e he => ?_⟩
        rw [List.mem_singleton.mp he]
      · exact hnone
    obtain ⟨first, hfirst, hfirstLevel⟩ := hrow
    refine ⟨first ++ added, ?_, fun e he => (List.mem_append.mp he).elim (hfirstLevel e) (hlevel e)⟩
    rw [List.foldl_cons, hqueue, hfirst, List.append_assoc]

/-- An entry is replaced by entries one level deeper, down to the depth limit. -/
lemma reacherStep_decreases (seed : String) (adj : RevImpactAdj) (maxDepth : ℕ) (minConfidence : ℚ)
    (st st' : ReacherState) (h : reacherStep seed adj maxDepth minConfidence st = .inl st') :
    Relation.CutExpand (· < ·) ((st'.queue.map (reacherRank maxDepth) : List ℕ) : Multiset ℕ)
      ((st.queue.map (reacherRank maxDepth) : List ℕ) : Multiset ℕ) := by
  unfold reacherStep at h
  split at h
  · cases h
  · rename_i u d rest hqueue
    dsimp only at h
    split_ifs at h with hd
    · obtain rfl := Sum.inl.inj h
      have hless := requeue_decreases (reacherRank maxDepth) (u, d) rest [] fun _ he => nomatch he
      rwa [List.append_nil, ← hqueue] at hless
    · obtain rfl := Sum.inl.inj h
      obtain ⟨added, hadded, hlevel⟩ :=
        queue_reacherRows seed minConfidence (adj u) d (st.score u) { st with queue := rest }
      have hless := requeue_decreases (reacherRank maxDepth) (u, d) rest added fun e he => by
        have := hlevel e he
        simp only [reacherRank]
        omega
      rw [← hqueue] at hless
      rw [hadded]
      exact hless

/-- The result of the walk. -/
def reachers (seed : String) (adj : RevImpactAdj) (maxDepth : ℕ) (minConfidence : ℚ) :
    List Reacher :=
  loop (requeue_wellFounded (reacherRank maxDepth) ReacherState.queue)
    (reacherStep_decreases seed adj maxDepth minConfidence) (.init seed)

/-! ## The end of the walk -/

variable {typedEdges : List TypedEdge} {allowedSymbols : Option (Finset String)}

/-- The store's walk over the adjacency. -/
abbrev overAdjacency (seed : String) (typedEdges : List TypedEdge)
    (allowedSymbols : Option (Finset String)) (maxDepth : ℕ) (minConfidence : ℚ) : WalkArgs :=
  storeWalk seed (buildRevImpactAdjacency typedEdges allowedSymbols) maxDepth minConfidence

/-- The reached symbols are the nodes that the store's walk ends with. -/
lemma exists_final (seed : String) (typedEdges : List TypedEdge)
    (allowedSymbols : Option (Finset String)) (maxDepth : ℕ) (minConfidence : ℚ) :
    let b := overAdjacency seed typedEdges allowedSymbols maxDepth minConfidence
    ∃ st, Reaches (walkStep b) b.init st ∧ st.queue = [] ∧
      ∀ x, x ∈ reachers seed (buildRevImpactAdjacency typedEdges allowedSymbols) maxDepth
          minConfidence ↔ ∃ n ∈ (st.result b).nodes, Reacher.ofNode n = x := by
  intro b
  have hsim : ∀ st r, flip SameState st r → Sum.LiftRel (flip SameState) (flip SameResult)
      (walkStep b st) (reacherStep seed (buildRevImpactAdjacency typedEdges allowedSymbols) maxDepth
        minConfidence r) := fun st r h =>
    liftRel_flip (reachers_simulates_walk edgeType_buildRevImpactAdjacency r st h)
  have hinit : flip SameState b.init (.init seed) := SameState.init
  obtain ⟨fuel, hrun⟩ := runImpactWalk_impactWalk b
  obtain ⟨found, hrun', hsame⟩ := runLoop_simulates hsim hinit hrun
  have heq : reachers seed (buildRevImpactAdjacency typedEdges allowedSymbols) maxDepth minConfidence =
      found := loop_eq_of_runLoop _ _ hrun'
  obtain ⟨st, hreach, hstep⟩ := runLoop_eq_some hrun
  cases hresult : impactWalk b with
  | error e => exact absurd (hresult ▸ hstep) (walkStep_not_error rfl)
  | ok r =>
    rw [hresult] at hstep hsame
    obtain ⟨hend, rfl⟩ := walkStep_ok hstep
    exact ⟨st, hreach, hend, heq ▸ hsame⟩

/-- Every symbol that a path within the limits reaches is found. -/
lemma exists_reacher {u : String} {k : ℕ} {p : ℚ}
    (h : BoundedPath (overAdjacency seed typedEdges allowedSymbols maxDepth minConfidence)
      (structuralEdges typedEdges allowedSymbols) u k p) :
    ∃ x ∈ reachers seed (buildRevImpactAdjacency typedEdges allowedSymbols) maxDepth minConfidence,
      x.uid = u := by
  obtain ⟨st, hreach, hend, hmem⟩ :=
    exists_final seed typedEdges allowedSymbols maxDepth minConfidence
  obtain ⟨n, hn, rfl⟩ := returns_of_boundedPath delivers_storeWalk hreach hend h
  exact ⟨_, (hmem _).mpr ⟨n, hn, rfl⟩, rfl⟩

lemma reacher_depth {x : Reacher} (hx : x ∈ reachers seed
    (buildRevImpactAdjacency typedEdges allowedSymbols) maxDepth minConfidence) :
    x.uid ≠ seed ∧ x.depth ≠ 0 ∧ x.depth ≤ maxDepth := by
  obtain ⟨st, hreach, -, hmem⟩ := exists_final seed typedEdges allowedSymbols maxDepth minConfidence
  obtain ⟨n, hn, rfl⟩ := (hmem x).mp hx
  obtain ⟨v, hv⟩ := mem_result_nodes.mp hn
  obtain ⟨hle, hne, -⟩ := (reached_of_reaches delivers_storeWalk hreach).node v n hv
  obtain ⟨d, hinv⟩ := walkInv_of_reaches hreach
  obtain ⟨rfl, -⟩ := hinv.labelled v n hv
  refine ⟨fun huid => ?_, hne, hle⟩
  have hnone : st.resultMap.lookup seed = none := hinv.target_unlabelled
  rw [← show n.uid = seed from huid, hv] at hnone
  cases hnone

/-- The depths found are those of the shortest paths within the limits exactly when these have the
greatest products. -/
lemma reachers_depths_iff :
    (∀ x ∈ reachers seed (buildRevImpactAdjacency typedEdges allowedSymbols) maxDepth minConfidence,
        IsShortest (overAdjacency seed typedEdges allowedSymbols maxDepth minConfidence)
          (structuralEdges typedEdges allowedSymbols) x.uid x.depth) ↔
      ∀ u, Straight (overAdjacency seed typedEdges allowedSymbols maxDepth minConfidence)
        (structuralEdges typedEdges allowedSymbols) u := by
  obtain ⟨st, hreach, hend, hmem⟩ :=
    exists_final seed typedEdges allowedSymbols maxDepth minConfidence
  rw [← depths_shortest_iff delivers_storeWalk hreach hend]
  constructor
  · intro h n hn
    exact h _ ((hmem _).mpr ⟨n, hn, rfl⟩)
  · intro h x hx
    obtain ⟨n, hn, rfl⟩ := (hmem x).mp hx
    exact h n hn

end AffectedTests
end NestWeaver
