import NestWeaver.Store.Traverse.ImpactBest

/-!
# The in-memory impact walk

`impact_reachers_in_memory` of `crates/nestweaver-engine/src/affected_tests.rs`: the impact walk of
the store over a prebuilt reverse adjacency.  It is the store's walk with the structural edges, the
default threshold and the rows in the order of the adjacency (`reachers_simulates_walk`), so the two
find the same symbols at the same depths wherever both find the best bounded paths, and may differ
where one of them does not.
-/

set_option linter.all false

namespace NestWeaver
namespace AffectedTests

open WorkLoop Traverse

/-- `IMPACT_THRESHOLD`. -/
def impactThreshold : ℚ := 1 / 10

/-- A direct caller in the reverse adjacency. -/
structure RevCaller where
  uid : String
  edgeType : EdgeType
  confidence : ℚ
  deriving DecidableEq, Repr

/-- The caller as a row of the store's query. -/
def RevCaller.row (c : RevCaller) : CallerRow := ⟨c.uid, "", "", 0, c.edgeType, c.confidence⟩

/-- The direct callers of each symbol. -/
abbrev RevImpactAdj := String → List RevCaller

/-- A caller reached by the walk. -/
structure Reacher where
  uid : String
  edgeType : EdgeType
  confidence : ℚ
  depth : ℕ
  deriving DecidableEq, Repr

/-- The structural impact edges between allowed symbols, by their destination. -/
def buildRevImpactAdjacency (typedEdges : List TypedEdge) (allowedSymbols : Option (Finset String)) :
    RevImpactAdj := fun uid =>
  (typedEdges.filter fun e => e.edgeType ∈ impactEdgeTypes ∧
      (allowedSymbols.all fun allowed => e.src ∈ allowed ∧ e.dst ∈ allowed) ∧ e.dst = uid).map
    fun e => ⟨e.src, e.edgeType, e.confidence⟩

/-- The local variables of the walk. -/
structure ReacherState where
  scores : AList fun _ : String => ℚ
  queue : List (String × ℕ)
  result : AList fun _ : String => Reacher

variable (seed : String) (adj : RevImpactAdj) (maxDepth : ℕ) (minConfidence : ℚ)

def ReacherState.init : ReacherState where
  scores := (∅ : AList fun _ : String => ℚ).insert seed 1
  queue := [(seed, 0)]
  result := ∅

def ReacherState.score (st : ReacherState) (uid : String) : ℚ := (st.scores.lookup uid).getD 0

/-- One caller of an entry taken off the queue at `depth`. -/
def reacherRow (depth : ℕ) (parentScore : ℚ) (st : ReacherState) (caller : RevCaller) :
    ReacherState :=
  if caller.confidence < minConfidence then st
  else if caller.uid = seed then st
  else
    let candidateScore := parentScore * caller.confidence
    if candidateScore < impactThreshold then st
    else if candidateScore > st.score caller.uid then
      { scores := st.scores.insert caller.uid candidateScore
        queue := st.queue ++ [(caller.uid, depth + 1)]
        result := st.result.insert caller.uid
          ⟨caller.uid, caller.edgeType, caller.confidence, depth + 1⟩ }
    else st

/-- One pass of the walk. -/
def reacherStep (st : ReacherState) : ReacherState ⊕ List Reacher :=
  match st.queue with
  | [] => .inr (st.result.entries.map Sigma.snd)
  | (current, depth) :: rest =>
    let st' := { st with queue := rest }
    if depth ≥ maxDepth then .inl st'
    else .inl ((adj current).foldl (reacherRow seed minConfidence depth (st.score current)) st')

def impactReachersInMemory (fuel : ℕ) : Option (List Reacher) :=
  runLoop (reacherStep seed adj maxDepth minConfidence) fuel (.init seed)

/-- The next pass passes on no score that a path longer than its depth has raised. -/
def ReacherFresh (st : ReacherState) : Prop :=
  ∀ u d rest x, st.queue = (u, d) :: rest → d < maxDepth → st.result.lookup u = some x →
    x.depth ≠ d → ∀ caller ∈ adj u, minConfidence ≤ caller.confidence → caller.uid ≠ seed →
      impactThreshold ≤ st.score u * caller.confidence →
      st.score u * caller.confidence ≤ st.score caller.uid

/-! ## The store's walk over the same rows -/

/-- The store's structural walk over the rows of the adjacency. -/
def storeWalk : WalkArgs where
  targetUid := seed
  maxDepth := maxDepth
  minConfidence := minConfidence
  plan := .new impactEdgeTypes [] 0
  minScore := defaultImpactThreshold
  allowedSymbols := none
  cancel := none
  directCallers := fun _ uid minConfidence types =>
    ((adj uid).filter fun c => c.edgeType ∈ types ∧ minConfidence ≤ c.confidence).map
      RevCaller.row

/-- The fields of a node that the in-memory walk keeps. -/
def Reacher.ofNode (n : ImpactNode) : Reacher := ⟨n.uid, n.edgeType, n.confidence, n.depth⟩

/-- The two states agree. -/
structure SameState (r : ReacherState) (st : WalkState) : Prop where
  scores : r.scores = st.scores
  queue : r.queue = st.queue
  result : ∀ u, r.result.lookup u = (st.resultMap.lookup u).map Reacher.ofNode

/-- The two results agree. -/
def SameResult (reachers : List Reacher) : Except StoreError ImpactResult → Prop
  | .ok result => ∀ x, x ∈ reachers ↔ ∃ n ∈ result.nodes, Reacher.ofNode n = x
  | .error _ => False

variable {seed adj maxDepth minConfidence} {r : ReacherState} {st : WalkState}

lemma SameState.score (h : SameState r st) (u : String) : r.score u = st.score u := by
  rw [ReacherState.score, WalkState.score, h.scores]

lemma SameState.init :
    SameState (.init seed) (storeWalk seed adj maxDepth minConfidence).init := by
  refine ⟨rfl, rfl, fun u => ?_⟩
  rw [ReacherState.init, WalkArgs.init, AList.lookup_empty, AList.lookup_empty, Option.map_none]

lemma admits_storeWalk {uid : String} :
    (storeWalk seed adj maxDepth minConfidence).Admits uid ↔ uid ≠ seed := by
  simp [WalkArgs.Admits, storeWalk]

/-- A caller that meets the confidence filter does the same to both states. -/
lemma SameState.row (h : SameState r st) {c : RevCaller} (hconf : minConfidence ≤ c.confidence)
    (d : ℕ) (s : ℚ) :
    SameState (reacherRow seed minConfidence d s r c)
      (walkRow (storeWalk seed adj maxDepth minConfidence) d s st c.row) := by
  have hadmits : (storeWalk seed adj maxDepth minConfidence).Admits c.row.uid ↔ c.uid ≠ seed :=
    admits_storeWalk
  unfold reacherRow
  dsimp only
  rw [if_neg (not_lt.mpr hconf)]
  obtain ⟨hno, heq⟩ | ⟨hadm, hprune, heq⟩ | ⟨hadm, hkeep, hle, heq⟩ | ⟨hadm, hkeep, hlt, heq⟩ :=
    walkRow_cases (storeWalk seed adj maxDepth minConfidence) d s st c.row
  · rw [hadmits, not_not] at hno
    rwa [heq, if_pos hno]
  · rw [heq, if_neg (hadmits.mp hadm), if_pos (show s * c.confidence < impactThreshold from hprune)]
    exact ⟨h.scores, h.queue, h.result⟩
  · rw [heq, if_neg (hadmits.mp hadm), 
      if_neg (not_lt.mpr (show impactThreshold ≤ s * c.confidence from hkeep)), h.score,
      if_neg (not_lt.mpr (show s * c.confidence ≤ st.score c.uid from hle))]
    exact h
  · rw [heq, if_neg (hadmits.mp hadm),
      if_neg (not_lt.mpr (show impactThreshold ≤ s * c.confidence from hkeep)), h.score,
      if_pos (show s * c.confidence > st.score c.uid from hlt)]
    refine ⟨?_, ?_, fun u => ?_⟩
    · exact congrArg (AList.insert c.uid (s * c.confidence)) h.scores
    · exact congrArg (· ++ [(c.uid, d + 1)]) h.queue
    · by_cases hu : u = c.uid
      · subst hu
        have hlookup : (st.improve d c.row (s * c.confidence)).resultMap.lookup c.uid = some _ :=
          WalkState.lookup_improve_self
        rw [AList.lookup_insert]
        exact (congrArg (Option.map Reacher.ofNode) hlookup).symm
      · rw [AList.lookup_insert_ne hu, h.result]
        exact congrArg (Option.map Reacher.ofNode) (WalkState.lookup_improve_ne hu).symm

/-- The loop over all callers, of which the filter passes over some, and the loop over the rows the
query delivers. -/
lemma SameState.rows (callers : List RevCaller)
    (htypes : ∀ c ∈ callers, c.edgeType ∈ impactEdgeTypes) (h : SameState r st) (d : ℕ) (s : ℚ) :
    SameState (callers.foldl (reacherRow seed minConfidence d s) r)
      (((callers.filter fun c => c.edgeType ∈ impactEdgeTypes ∧ minConfidence ≤ c.confidence).map
        RevCaller.row).foldl (walkRow (storeWalk seed adj maxDepth minConfidence) d s) st) := by
  induction callers generalizing r st with
  | nil => exact h
  | cons c callers ih =>
    have htype := htypes c List.mem_cons_self
    have htypes' := fun c' hc' => htypes c' (List.mem_cons_of_mem _ hc')
    by_cases hconf : minConfidence ≤ c.confidence
    · rw [List.filter_cons_of_pos (by simp [htype, hconf]), List.map_cons, List.foldl_cons,
        List.foldl_cons]
      exact ih htypes' (h.row hconf d s)
    · rw [List.filter_cons_of_neg (by simp [hconf]), List.foldl_cons]
      have hskip : reacherRow seed minConfidence d s r c = r := by
        rw [reacherRow, if_pos (not_le.mp hconf)]
      rw [hskip]
      exact ih htypes' h

lemma edgesAtDepth_structural (d : ℕ) :
    (ImpactEdgePlan.new impactEdgeTypes [] 0).edgesAtDepth d = impactEdgeTypes := by
  simp [ImpactEdgePlan.new, ImpactEdgePlan.edgesAtDepth]

lemma edgesAtDepth_storeWalk (d : ℕ) :
    (storeWalk seed adj maxDepth minConfidence).plan.edgesAtDepth d = impactEdgeTypes :=
  edgesAtDepth_structural d

/-- The in-memory walk and the store's walk over the same rows go in step. -/
lemma reachers_simulates_walk (htypes : ∀ u, ∀ c ∈ adj u, c.edgeType ∈ impactEdgeTypes)
    (r : ReacherState) (st : WalkState) (h : SameState r st) :
    Sum.LiftRel SameState SameResult (reacherStep seed adj maxDepth minConfidence r)
      (walkStep (storeWalk seed adj maxDepth minConfidence) st) := by
  unfold reacherStep walkStep
  rw [h.queue]
  cases hqueue : st.queue with
  | nil =>
    refine .inr fun x => ?_
    simp only [List.mem_map, mem_result_nodes]
    constructor
    · rintro ⟨⟨u, y⟩, hmem, rfl⟩
      have hlookup := h.result u
      rw [AList.mem_lookup_iff.mpr hmem] at hlookup
      obtain ⟨n, hn, rfl⟩ := Option.map_eq_some_iff.mp hlookup.symm
      exact ⟨n, ⟨u, hn⟩, rfl⟩
    · rintro ⟨n, ⟨u, hn⟩, rfl⟩
      have hlookup := h.result u
      rw [hn, Option.map_some] at hlookup
      exact ⟨⟨u, _⟩, AList.mem_lookup_iff.mp hlookup, rfl⟩
  | cons entry rest =>
    obtain ⟨u, d⟩ := entry
    have hpop : SameState { r with queue := rest } (st.pop rest) := ⟨h.scores, rfl, h.result⟩
    have hcancel : ¬(storeWalk seed adj maxDepth minConfidence).cancel.any (· st.polls) = true := by
      simp [storeWalk]
    have hmax : (storeWalk seed adj maxDepth minConfidence).maxDepth = maxDepth := rfl
    dsimp only
    rw [if_neg hcancel, hmax]
    by_cases hd : d ≥ maxDepth
    · rw [if_pos hd, if_pos hd]
      exact .inl ⟨hpop.scores, hpop.queue, hpop.result⟩
    · rw [if_neg hd, if_neg hd]
      refine .inl ?_
      have hquery : SameState { r with queue := rest }
          { st.pop rest with queries := (st.pop rest).queries + 1 } :=
        ⟨hpop.scores, hpop.queue, hpop.result⟩
      rw [expand, WalkArgs.callers, edgesAtDepth_storeWalk, ← hpop.score u]
      exact hquery.rows (adj u) (htypes u) d _

/-! ## The same symbols at the same depths -/

/-- The edges the adjacency is built from. -/
def structuralEdges (typedEdges : List TypedEdge) (allowedSymbols : Option (Finset String)) :
    List TypedEdge :=
  typedEdges.filter fun e => e.edgeType ∈ impactEdgeTypes ∧
    allowedSymbols.all fun allowed => e.src ∈ allowed ∧ e.dst ∈ allowed

variable {edges typedEdges : List TypedEdge} {allowedSymbols : Option (Finset String)}
  {a : WalkArgs}

lemma mem_structuralEdges {e : TypedEdge} : e ∈ structuralEdges typedEdges allowedSymbols ↔
    e ∈ typedEdges ∧ e.edgeType ∈ impactEdgeTypes ∧
      ∀ allowed, allowedSymbols = some allowed → e.src ∈ allowed ∧ e.dst ∈ allowed := by
  cases allowedSymbols <;> simp [structuralEdges]

lemma mem_buildRevImpactAdjacency {u : String} {c : RevCaller} :
    c ∈ buildRevImpactAdjacency typedEdges allowedSymbols u ↔
      (⟨c.uid, u, c.edgeType, c.confidence⟩ : TypedEdge) ∈
        structuralEdges typedEdges allowedSymbols := by
  simp only [buildRevImpactAdjacency, structuralEdges, List.mem_map, List.mem_filter,
    decide_eq_true_eq]
  constructor
  · rintro ⟨e, ⟨hmem, htype, hallowed, rfl⟩, rfl⟩
    exact ⟨hmem, htype, hallowed⟩
  · rintro ⟨hmem, htype, hallowed⟩
    exact ⟨_, ⟨hmem, htype, hallowed, rfl⟩, rfl⟩

lemma delivers_storeWalk : Delivers (structuralEdges typedEdges allowedSymbols)
    (storeWalk seed (buildRevImpactAdjacency typedEdges allowedSymbols) maxDepth
      minConfidence).directCallers := by
  intro n dst conf types e
  simp only [storeWalk, List.mem_map, List.mem_filter, decide_eq_true_eq,
    mem_buildRevImpactAdjacency]
  constructor
  · rintro ⟨_, ⟨c, ⟨hmem, htype, hconf⟩, rfl⟩, rfl⟩
    exact ⟨hmem, rfl, htype, hconf⟩
  · rintro ⟨hmem, rfl, htype, hconf⟩
    exact ⟨_, ⟨⟨e.src, e.edgeType, e.confidence⟩, ⟨hmem, htype, hconf⟩, rfl⟩, rfl⟩

/-- The walk of `GraphStore::impact`: structural edges only, the default threshold. -/
def IsStructural (a : WalkArgs) : Prop :=
  a.plan = .new impactEdgeTypes [] 0 ∧ a.minScore = defaultImpactThreshold

variable (hperm : typedEdges.Perm edges) (hstructural : IsStructural a)
  (hseed : ∀ allowed, a.allowedSymbols = some allowed → a.targetUid ∈ allowed)

/-- The store's walk over the rows of the adjacency. -/
def adjacencyWalk (a : WalkArgs) (typedEdges : List TypedEdge) : WalkArgs :=
  storeWalk a.targetUid (buildRevImpactAdjacency typedEdges a.allowedSymbols) a.maxDepth
    a.minConfidence

include hperm hstructural hseed in
/-- Both walks may follow the same edges into a symbol they reach. -/
lemma follows_adjacencyWalk {k : ℕ} {e : TypedEdge} (hdst : e.dst = a.targetUid ∨ a.Admits e.dst) :
    (adjacencyWalk a typedEdges).Follows (structuralEdges typedEdges a.allowedSymbols) k e ↔
      a.Follows edges k e := by
  have hplan : a.plan.edgesAtDepth k = impactEdgeTypes := by
    rw [hstructural.1, edgesAtDepth_structural]
  have hplan' : (adjacencyWalk a typedEdges).plan.edgesAtDepth k = impactEdgeTypes :=
    edgesAtDepth_structural k
  have hadmits : (adjacencyWalk a typedEdges).Admits e.src ↔ e.src ≠ a.targetUid :=
    admits_storeWalk
  have hdst' : ∀ allowed, a.allowedSymbols = some allowed → e.dst ∈ allowed := by
    rcases hdst with hdst | hdst
    · exact hdst ▸ hseed
    · exact hdst.2
  simp only [WalkArgs.Follows, hplan, hplan', hadmits, mem_structuralEdges, hperm.mem_iff]
  constructor
  · rintro ⟨⟨hmem, -, hallowed⟩, htype, hconf, hne⟩
    exact ⟨hmem, htype, hconf, hne, fun allowed h => (hallowed allowed h).1⟩
  · rintro ⟨hmem, htype, hconf, hne, hallowed⟩
    exact ⟨⟨hmem, htype, fun allowed h => ⟨hallowed allowed h, hdst' allowed h⟩⟩, htype, hconf, hne⟩

include hperm hstructural hseed in
/-- The store's walk over the graph and its walk over the adjacency have the same paths. -/
lemma boundedPath_adjacencyWalk {u : String} {k : ℕ} {p : ℚ} :
    BoundedPath (adjacencyWalk a typedEdges) (structuralEdges typedEdges a.allowedSymbols) u k p ↔
      BoundedPath a edges u k p := by
  have hkeeps : (adjacencyWalk a typedEdges).Keeps = a.Keeps := by
    funext x
    rw [WalkArgs.Keeps, WalkArgs.Keeps, hstructural.2]
    rfl
  have hadmits : ∀ v, (adjacencyWalk a typedEdges).Admits v ↔ v ≠ a.targetUid := fun v =>
    admits_storeWalk
  unfold BoundedPath
  rw [hkeeps]
  refine and_congr_right fun _ => and_congr_right fun _ => ⟨fun h => ?_, fun h => ?_⟩
  · refine h.transfer rfl fun j e hdst hfollow => ?_
    refine (follows_adjacencyWalk hperm hstructural hseed ?_).mp hfollow
    refine hdst.imp id fun hne => ⟨(hadmits _).mp hne, fun allowed hallowed => ?_⟩
    exact ((mem_structuralEdges.mp hfollow.1).2.2 allowed hallowed).2
  · refine h.transfer rfl fun j e hdst hfollow => ?_
    exact (follows_adjacencyWalk hperm hstructural hseed hdst).mpr hfollow

/-- A state of the in-memory walk is fresh where the state of the store's walk it goes with is. -/
lemma SameState.fresh (h : SameState r st) (hfresh : ReacherFresh seed adj maxDepth minConfidence r) :
    Fresh (storeWalk seed adj maxDepth minConfidence) st := by
  intro u d rest n hqueue hd hn hdepth row hrow hadm hkeep
  have hresult := h.result u
  rw [hn, Option.map_some] at hresult
  obtain ⟨c, hc, rfl⟩ := List.mem_map.mp hrow
  obtain ⟨hmem, hfilter⟩ := List.mem_filter.mp hc
  have hconf : minConfidence ≤ c.confidence := (of_decide_eq_true hfilter).2
  have hle := hfresh u d rest _ (h.queue.trans hqueue) hd hresult hdepth c hmem hconf
    (admits_storeWalk.mp hadm)
  rw [h.score, h.score] at hle
  exact hle hkeep

lemma edgeType_buildRevImpactAdjacency (u : String) :
    ∀ c ∈ buildRevImpactAdjacency typedEdges allowedSymbols u, c.edgeType ∈ impactEdgeTypes :=
  fun _ hc => (mem_structuralEdges.mp (mem_buildRevImpactAdjacency.mp hc)).2.1

/-- The in-memory walk through fresh states ends with the symbols and depths of a best-path
result. -/
lemma reachers_best
    (hfresh : ∀ r, Reaches (reacherStep seed (buildRevImpactAdjacency typedEdges allowedSymbols)
      maxDepth minConfidence) (.init seed) r →
      ReacherFresh seed (buildRevImpactAdjacency typedEdges allowedSymbols) maxDepth
        minConfidence r) :
    ∃ fuel reachers result,
      impactReachersInMemory seed (buildRevImpactAdjacency typedEdges allowedSymbols) maxDepth
        minConfidence fuel = some reachers ∧
      BestPaths (storeWalk seed (buildRevImpactAdjacency typedEdges allowedSymbols) maxDepth
        minConfidence) (structuralEdges typedEdges allowedSymbols) result ∧
      SameResult reachers (.ok result) := by
  let adj := buildRevImpactAdjacency typedEdges allowedSymbols
  let b := storeWalk seed adj maxDepth minConfidence
  have hsim : ∀ st r, flip SameState st r → Sum.LiftRel (flip SameState) (flip SameResult)
      (walkStep b st) (reacherStep seed adj maxDepth minConfidence r) := fun st r h =>
    liftRel_flip (reachers_simulates_walk edgeType_buildRevImpactAdjacency r st h)
  have hinit : flip SameState b.init (.init seed) := SameState.init
  have hfresh' : ∀ st, Reaches (walkStep b) b.init st → Fresh b st := by
    intro st hst
    obtain ⟨r, hr, hsame⟩ := hst.simulates hsim hinit
    exact SameState.fresh hsame (hfresh r hr)
  obtain ⟨fuel, result, hrun, hbest⟩ := runImpactWalk_best delivers_storeWalk rfl hfresh'
  obtain ⟨reachers, hrun', hsame⟩ := runLoop_simulates hsim hinit hrun
  exact ⟨fuel, reachers, result, hrun', hbest, hsame⟩

/-- The structural walk from `target` over the given edges, in their order. -/
def structuralWalk (edges : List TypedEdge) (maxDepth : ℕ) : WalkArgs where
  targetUid := "target"
  maxDepth := maxDepth
  minConfidence := 0
  plan := .new impactEdgeTypes [] 0
  minScore := defaultImpactThreshold
  allowedSymbols := none
  cancel := none
  directCallers := fun _ => callersInOrder edges

/-- `y` and `x` call `target`, `y` is called by `x`, and `z` calls `x`. -/
def lateRise : List TypedEdge :=
  [⟨"y", "target", .calls, 9 / 10⟩, ⟨"x", "target", .calls, 1 / 2⟩, ⟨"x", "y", .calls, 9 / 10⟩,
    ⟨"z", "x", .calls, 3 / 20⟩]

/-- The same edges, with `x` before `y`. -/
def lateRiseReordered : List TypedEdge :=
  [⟨"x", "target", .calls, 1 / 2⟩, ⟨"y", "target", .calls, 9 / 10⟩, ⟨"x", "y", .calls, 9 / 10⟩,
    ⟨"z", "x", .calls, 3 / 20⟩]

/-- The walk of depth 2 over `lateRise`: `z` is given the product of the path through `y` and `x`,
which has three edges, at depth 2. -/
def lateRiseResult : ImpactResult where
  nodes := [⟨"y", "y", "lib.rs", 1, .calls, 9 / 10, 1, 9 / 10⟩,
    ⟨"x", "x", "lib.rs", 1, .calls, 9 / 10, 2, 81 / 100⟩,
    ⟨"z", "z", "lib.rs", 1, .calls, 3 / 20, 2, 243 / 2000⟩]
  truncatedByThreshold := false
  truncatedByDepth := true
  edgeTypes := impactEdgeTypes

lemma lateRise_into_z {e : TypedEdge} (he : e ∈ lateRise) (hsrc : e.src = "z") :
    e = ⟨"z", "x", .calls, 3 / 20⟩ := by
  simp only [lateRise, List.mem_cons, List.not_mem_nil, or_false] at he
  rcases he with rfl | rfl | rfl | rfl <;> simp_all

lemma lateRise_into_x {e : TypedEdge} (he : e ∈ lateRise) (hsrc : e.src = "x")
    (hdst : e.dst = "target") : e = ⟨"x", "target", .calls, 1 / 2⟩ := by
  simp only [lateRise, List.mem_cons, List.not_mem_nil, or_false] at he
  rcases he with rfl | rfl | rfl | rfl <;> simp_all

/-- No path of at most two edges leads to `z` within the threshold. -/
lemma lateRise_no_path {k : ℕ} {p : ℚ} :
    ¬BoundedPath (structuralWalk lateRise 2) lateRise "z" k p := by
  rintro ⟨hk, hle, hpath⟩
  obtain ⟨k, rfl⟩ := Nat.exists_eq_succ_of_ne_zero hk
  obtain ⟨e, q, hpre, hfollow, hkeep, hsrc, rfl⟩ := callerPath_succ.mp hpath
  obtain rfl := lateRise_into_z hfollow.1 hsrc
  cases k with
  | zero => exact absurd (callerPath_zero.mp hpre).1 (by decide)
  | succ k =>
    -- the only other edge on the path is that of `x` into the target
    obtain rfl : k = 0 := by
      have : k.succ.succ ≤ 2 := hle
      omega
    obtain ⟨f, q', hstart, hfollow', -, hsrc', rfl⟩ := callerPath_succ.mp hpre
    obtain ⟨hdst, rfl⟩ := callerPath_zero.mp hstart
    obtain rfl := lateRise_into_x hfollow'.1 hsrc' hdst
    have hthreshold : (1 / 10 : ℚ) ≤ 1 * (1 / 2) * (3 / 20) := hkeep.2
    exact absurd hthreshold (by decide +kernel)

/-- The in-memory walk of depth one goes through fresh states only. -/
lemma reacherFresh_of_maxDepth_le_one (h : maxDepth ≤ 1)
    (hreach : Reaches (reacherStep seed (buildRevImpactAdjacency typedEdges allowedSymbols) maxDepth
      minConfidence) (.init seed) r) :
    ReacherFresh seed (buildRevImpactAdjacency typedEdges allowedSymbols) maxDepth
      minConfidence r := by
  intro u d rest x hqueue hd hx hdepth
  obtain ⟨st, hst, hsame⟩ := hreach.simulates
    (reachers_simulates_walk edgeType_buildRevImpactAdjacency) SameState.init
  obtain ⟨k, hinv⟩ := walkInv_of_reaches hst
  obtain ⟨p, hpath⟩ := (reached_of_reaches delivers_storeWalk hst).entry u d
    (by rw [← hsame.queue, hqueue]; exact List.mem_cons_self)
  obtain rfl : d = 0 := by omega
  rw [hsame.result, (callerPath_zero.mp hpath).1, hinv.target_unlabelled] at hx
  cases hx

end AffectedTests
end NestWeaver
