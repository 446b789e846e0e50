import Mathlib.Data.List.AList
import Mathlib.Data.List.Sort
import Mathlib.Data.Rat.Defs
import Mathlib.Data.Finset.Insert
import NestWeaver.Framework.WorkLoop
import NestWeaver.Schema

/-!
# The impact walk

`run_impact_walk` of `crates/nestweaver-store/src/traverse.rs`: the confidence-weighted reverse
breadth-first walk behind every impact answer.  Starting from the changed symbol it follows caller
edges, multiplies confidences, keeps for each symbol the best score found so far, and queues a
symbol again whenever its score improves.  The queue stores a symbol with a depth; the score is
read when the entry is taken off the queue.

Confidences and scores are exact rationals.  A `HashMap` is an association list without duplicate
keys (`AList`).  The order in which `direct_callers` delivers its rows may differ from call to
call, so the model gives it the number of calls made before; the cancel flag is given the number
of times it was read before.
-/

set_option linter.all false

namespace NestWeaver

namespace Traverse

open WorkLoop

/-- Structural reverse-impact edge set. -/
def impactEdgeTypes : List EdgeType :=
  [.calls, .imports, .extends, .implements, .includes, .crossRepoLink]

/-- Data-dependence edges, followed only to a shallow depth. -/
def impactDataEdgeTypes : List EdgeType := [.uses, .accesses]

/-- `DEFAULT_IMPACT_THRESHOLD`. -/
def defaultImpactThreshold : ℚ := 1 / 10

/-- A node returned by the impact traversal. -/
structure ImpactNode where
  uid : String
  name : String
  filePath : String
  startLine : ℕ
  edgeType : EdgeType
  confidence : ℚ
  depth : ℕ
  impactScore : ℚ
  deriving DecidableEq, Repr

/-- The nodes with the two flags that say whether the walk was complete. -/
structure ImpactResult where
  nodes : List ImpactNode
  truncatedByThreshold : Bool
  truncatedByDepth : Bool
  edgeTypes : List EdgeType
  deriving DecidableEq, Repr

/-- A row of the caller query: a caller with the data of its edge. -/
structure CallerRow where
  uid : String
  name : String
  filePath : String
  startLine : ℕ
  edgeType : EdgeType
  confidence : ℚ
  deriving DecidableEq, Repr

inductive StoreError
  | cancelled
  deriving DecidableEq, Repr

/-! ## The edge plan -/

/-- Which edge types to follow at which depth.  The structural types are among the combined
ones. -/
structure ImpactEdgePlan where
  structural : List EdgeType
  combined : List EdgeType
  dataActive : Bool
  dataMaxDepth : ℕ
  structural_subset : dataActive = true → structural ⊆ combined

def ImpactEdgePlan.new (structural data : List EdgeType) (dataMaxDepth : ℕ) : ImpactEdgePlan :=
  let dataActive := decide (dataMaxDepth > 0) && !data.isEmpty
  { structural
    combined := if dataActive then structural ++ data else []
    dataActive
    dataMaxDepth
    structural_subset := by
      intro hactive
      rw [if_pos hactive]
      exact List.subset_append_left _ _ }

def ImpactEdgePlan.edgesAtDepth (plan : ImpactEdgePlan) (depth : ℕ) : List EdgeType :=
  if plan.dataActive && decide (depth < plan.dataMaxDepth) then plan.combined else plan.structural

def ImpactEdgePlan.resultEdgeTypes (plan : ImpactEdgePlan) : List EdgeType :=
  if plan.dataActive then plan.combined else plan.structural

/-- What is followed deep in the walk is followed at every shallower depth. -/
lemma ImpactEdgePlan.edgesAtDepth_subset_of_le (plan : ImpactEdgePlan) {d k : ℕ} (hd : d ≤ k) :
    plan.edgesAtDepth k ⊆ plan.edgesAtDepth d := by
  simp only [edgesAtDepth, Bool.and_eq_true, decide_eq_true_eq]
  by_cases hk : plan.dataActive = true ∧ k < plan.dataMaxDepth
  · rw [if_pos hk, if_pos ⟨hk.1, hd.trans_lt hk.2⟩]
    exact List.Subset.refl _
  · rw [if_neg hk]
    split_ifs with hd'
    · exact plan.structural_subset hd'.1
    · exact List.Subset.refl _

/-! ## The walk -/

/-- The arguments of the walk. -/
structure WalkArgs where
  targetUid : String
  maxDepth : ℕ
  minConfidence : ℚ
  plan : ImpactEdgePlan
  minScore : ℚ
  allowedSymbols : Option (Finset String)
  /-- The cancel flag, at its `n`-th reading. -/
  cancel : Option (ℕ → Bool)
  /-- The caller query, at its `n`-th call. -/
  directCallers : ℕ → String → ℚ → List EdgeType → List CallerRow

/-- The local variables of the walk, with the numbers of reads of the flag and of queries. -/
structure WalkState where
  scores : AList fun _ : String => ℚ
  queue : List (String × ℕ)
  resultMap : AList fun _ : String => ImpactNode
  truncatedByThreshold : Bool
  truncatedByDepth : Bool
  polls : ℕ
  queries : ℕ

variable (a : WalkArgs)

def WalkArgs.init : WalkState where
  scores := (∅ : AList fun _ : String => ℚ).insert a.targetUid 1
  queue := [(a.targetUid, 0)]
  resultMap := ∅
  truncatedByThreshold := false
  truncatedByDepth := false
  polls := 0
  queries := 0

/-- `scores.get(uid).copied().unwrap_or(0.0)`. -/
def WalkState.score (st : WalkState) (uid : String) : ℚ := (st.scores.lookup uid).getD 0

/-- A row the walk takes up: not the target itself, and an allowed symbol. -/
def WalkArgs.Admits (uid : String) : Prop :=
  uid ≠ a.targetUid ∧ ∀ allowed, a.allowedSymbols = some allowed → uid ∈ allowed

instance (uid : String) : Decidable (a.Admits uid) :=
  match h : a.allowedSymbols with
  | none => decidable_of_iff (uid ≠ a.targetUid) (by simp [WalkArgs.Admits, h])
  | some allowed =>
    decidable_of_iff (uid ≠ a.targetUid ∧ uid ∈ allowed) (by simp [WalkArgs.Admits, h])

/-- A better score: the node is recorded and queued again. -/
def WalkState.improve (st : WalkState) (depth : ℕ) (row : CallerRow) (score : ℚ) : WalkState :=
  { st with
    scores := st.scores.insert row.uid score
    resultMap := st.resultMap.insert row.uid
      { uid := row.uid, name := row.name, filePath := row.filePath, startLine := row.startLine
        edgeType := row.edgeType, confidence := row.confidence, depth := depth + 1
        impactScore := score }
    queue := st.queue ++ [(row.uid, depth + 1)] }

/-- One row delivered for an entry taken off the queue at `depth`. -/
def walkRow (depth : ℕ) (parentScore : ℚ) (st : WalkState) (row : CallerRow) : WalkState :=
  if a.Admits row.uid then
    let candidateScore := parentScore * row.confidence
    if candidateScore < a.minScore then { st with truncatedByThreshold := true }
    else if candidateScore > st.score row.uid then st.improve depth row candidateScore
    else st
  else st

/-- The rows delivered for an entry. -/
def WalkArgs.callers (st : WalkState) (uid : String) (depth : ℕ) : List CallerRow :=
  a.directCallers st.queries uid a.minConfidence (a.plan.edgesAtDepth depth)

/-- The state once an entry is off the queue and the flag was read. -/
def WalkState.pop (st : WalkState) (rest : List (String × ℕ)) : WalkState :=
  { st with queue := rest, polls := st.polls + 1 }

/-- The inner loop: the callers of an entry, from the state after it was taken off the queue. -/
def expand (st : WalkState) (uid : String) (depth : ℕ) : WalkState :=
  (a.callers st uid depth).foldl (walkRow a depth (st.score uid))
    { st with queries := st.queries + 1 }

/-- The final order: highest score first, then by uid. -/
def ImpactNode.Before (left right : ImpactNode) : Prop :=
  right.impactScore < left.impactScore ∨
    (right.impactScore = left.impactScore ∧ left.uid ≤ right.uid)

instance : DecidableRel ImpactNode.Before := fun left right =>
  inferInstanceAs (Decidable (right.impactScore < left.impactScore ∨
    (right.impactScore = left.impactScore ∧ left.uid ≤ right.uid)))

def WalkState.result (st : WalkState) : ImpactResult where
  nodes := (st.resultMap.entries.map Sigma.snd).insertionSort ImpactNode.Before
  truncatedByThreshold := st.truncatedByThreshold
  truncatedByDepth := st.truncatedByDepth
  edgeTypes := a.plan.resultEdgeTypes

/-- One pass of the outer loop. -/
def walkStep (st : WalkState) : WalkState ⊕ Except StoreError ImpactResult :=
  match st.queue with
  | [] => .inr (.ok (st.result a))
  | (currentUid, depth) :: rest =>
    let st' := st.pop rest
    if a.cancel.any (· st.polls) then .inr (.error .cancelled)
    else if depth ≥ a.maxDepth then .inl { st' with truncatedByDepth := true }
    else .inl (expand a st' currentUid depth)

def runImpactWalk (fuel : ℕ) : Option (Except StoreError ImpactResult) :=
  runLoop (walkStep a) fuel a.init

end Traverse
end NestWeaver
