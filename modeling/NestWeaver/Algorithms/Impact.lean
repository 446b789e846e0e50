import Mathlib.Data.List.Sort
import NestWeaver.Algorithms.Graph
import NestWeaver.Framework.BreadthFirst
import NestWeaver.Framework.Iteration

/-!
# Impact analysis

`crates/nestweaver-algorithms/src/impact.rs`: breadth-first search along the edges of a graph from several
seeds.  The seeds themselves are in the result, at depth zero.

The result has every node within the greatest depth once, with its distance from the seeds, and is ordered
by distance (`impactAnalysis_exact`).
-/

set_option linter.all false

namespace NestWeaver
namespace Algorithms

open BreadthFirst

structure ImpactNode where
  uid : String
  depth : ℕ
  deriving DecidableEq, Repr

namespace InMemoryGraph

variable (graph : InMemoryGraph)

/-- The last of equal UIDs counts. -/
def uidToIdx (uid : String) : Option (Fin graph.uids.length) :=
  (List.finRange graph.uids.length).reverse.find? fun i => graph.uids.get i = uid

/-- One edge, if its confidence suffices and it is one between nodes. -/
def forwardEdge (threshold : ℚ) (edge : ℕ × ℕ × ℚ × EdgeKind) (i : Fin graph.uids.length) :
    Option (Fin graph.uids.length) :=
  let (src, tgt, conf, _) := edge
  if threshold ≤ conf then
    if htgt : tgt < graph.uids.length then if src = i then some ⟨tgt, htgt⟩ else none
    else none
  else none

/-- The adjacency list of a node. -/
def forward (threshold : ℚ) (i : Fin graph.uids.length) : List (Fin graph.uids.length) :=
  graph.edges.filterMap fun edge => graph.forwardEdge threshold edge i

/-- The nodes that the seeds name. -/
def seedNodes (seedUids : List String) : List (Fin graph.uids.length) :=
  seedUids.filterMap graph.uidToIdx

/-- The visited nodes are collected in the order of the hash map, and sorted by depth. -/
def impactAnalysis (order : Iteration) (seedUids : List String) (maxDepth : ℕ) (threshold : ℚ) :
    List ImpactNode :=
  let visited := search (graph.forward threshold) maxDepth (graph.seedNodes seedUids)
  let results := (order.visit visited).map fun e => (⟨graph.uids.get e.1, e.2⟩ : ImpactNode)
  results.insertionSort fun a b => a.depth ≤ b.depth

/-! ## What is returned -/

/-- There is an edge from one node to the other, and its confidence suffices. -/
def Admissible (threshold : ℚ) (i j : Fin graph.uids.length) : Prop :=
  ∃ edge ∈ graph.edges, edge.1 = i ∧ edge.2.1 = j ∧ threshold ≤ edge.2.2.1

/-- `k` admissible edges lead from a node that a seed names to the node. -/
inductive Distant (threshold : ℚ) (seedUids : List String) : ℕ → Fin graph.uids.length → Prop
  | seed {uid : String} {i : Fin graph.uids.length} (huid : uid ∈ seedUids)
      (hi : graph.uidToIdx uid = some i) : Distant threshold seedUids 0 i
  | edge {k : ℕ} {i j : Fin graph.uids.length} (hi : Distant threshold seedUids k i)
      (hj : graph.Admissible threshold i j) : Distant threshold seedUids (k + 1) j

variable {graph} {order : Iteration} {seedUids : List String} {maxDepth k : ℕ} {threshold : ℚ}
  {i j : Fin graph.uids.length}

lemma mem_forward : j ∈ graph.forward threshold i ↔ graph.Admissible threshold i j := by
  rw [forward, List.mem_filterMap, Admissible]
  refine exists_congr fun ⟨src, tgt, conf, kind⟩ => and_congr_right fun _ => ?_
  simp only [forwardEdge]
  constructor
  · intro h
    split_ifs at h with hconf htgt hsrc
    obtain rfl := Option.some.inj h
    exact ⟨hsrc, rfl, hconf⟩
  · rintro ⟨hsrc, htgt, hconf⟩
    have hlt : tgt < graph.uids.length := htgt ▸ j.isLt
    rw [if_pos hconf, dif_pos hlt, if_pos hsrc]
    exact congrArg some (Fin.ext htgt)

lemma hops_iff : Hops (graph.forward threshold) (graph.seedNodes seedUids) k i ↔
    graph.Distant threshold seedUids k i := by
  constructor
  · intro h
    induction h with
    | seed hv =>
      obtain ⟨uid, huid, hi⟩ := List.mem_filterMap.mp hv
      exact .seed huid hi
    | step _ hv ih => exact .edge ih (mem_forward.mp hv)
  · intro h
    induction h with
    | seed huid hi => exact .seed (List.mem_filterMap.mpr ⟨_, huid, hi⟩)
    | edge _ hj ih => exact .step ih (mem_forward.mpr hj)

lemma mem_search_forward {d : ℕ} :
    (i, d) ∈ search (graph.forward threshold) maxDepth (graph.seedNodes seedUids) ↔
      d ≤ maxDepth ∧ IsLeast {k | graph.Distant threshold seedUids k i} d := by
  rw [mem_search_iff]
  simp only [hops_iff]

/-- The result is the visited nodes in some order. -/
lemma exists_impactAnalysis (graph : InMemoryGraph) (order : Iteration) (seedUids : List String)
    (maxDepth : ℕ) (threshold : ℚ) :
    ∃ found : List (Fin graph.uids.length × ℕ),
      found.Perm (search (graph.forward threshold) maxDepth (graph.seedNodes seedUids)) ∧
      found.Pairwise (·.2 ≤ ·.2) ∧
      graph.impactAnalysis order seedUids maxDepth threshold =
        found.map fun e => ⟨graph.uids.get e.1, e.2⟩ := by
  set visited := search (graph.forward threshold) maxDepth (graph.seedNodes seedUids)
  let nearer : Fin graph.uids.length × ℕ → Fin graph.uids.length × ℕ → Prop := fun e e' => e.2 ≤ e'.2
  refine ⟨(order.visit visited).insertionSort nearer, ?_, ?_, ?_⟩
  · exact (List.perm_insertionSort nearer _).trans (order.perm visited)
  · haveI : Std.Total nearer := ⟨fun e e' => Nat.le_total ..⟩
    haveI : IsTrans _ nearer := ⟨fun _ _ _ => Nat.le_trans⟩
    exact List.pairwise_insertionSort nearer _
  · exact (List.map_insertionSort nearer (fun a b : ImpactNode => a.depth ≤ b.depth)
      (fun e => ⟨graph.uids.get e.1, e.2⟩) (order.visit visited) fun _ _ _ _ => Iff.rfl).symm

/-- **Exact reachability.**  Whatever the graph, the seeds and the order of the hash map: the result lists
every node whose distance from the seeds is at most the greatest depth once, with this distance, and no
other node; nearer nodes come first. -/
theorem impactAnalysis_exact (graph : InMemoryGraph) (order : Iteration) (seedUids : List String)
    (maxDepth : ℕ) (threshold : ℚ) :
    ∃ found : List (Fin graph.uids.length × ℕ),
      graph.impactAnalysis order seedUids maxDepth threshold =
        found.map (fun e => ⟨graph.uids.get e.1, e.2⟩) ∧
      (found.map Prod.fst).Nodup ∧ found.Pairwise (·.2 ≤ ·.2) ∧
      ∀ i d, (i, d) ∈ found ↔
        d ≤ maxDepth ∧ IsLeast {k | graph.Distant threshold seedUids k i} d := by
  obtain ⟨found, hperm, hsorted, heq⟩ := exists_impactAnalysis graph order seedUids maxDepth threshold
  refine ⟨found, heq, ?_, hsorted, fun i d => ?_⟩
  · exact ((hperm.map Prod.fst).nodup_iff).mpr nodup_search
  · rw [hperm.mem_iff, mem_search_forward]

/-- **The start is returned.**  It is not true that only other nodes are. -/
theorem impactAnalysis_start :
    ¬∀ (graph : InMemoryGraph) (order : Iteration) (start : String) (maxDepth : ℕ) (threshold : ℚ),
      ∀ node ∈ graph.impactAnalysis order [start] maxDepth threshold,
        node.uid ≠ start ∧ 1 ≤ node.depth := by
  intro h
  let graph : InMemoryGraph := ⟨["a"], []⟩
  obtain ⟨found, hperm, -, heq⟩ := exists_impactAnalysis graph .inOrder ["a"] 0 0
  have hstart : graph.Distant 0 ["a"] 0 (0 : Fin 1) := .seed (List.mem_singleton_self "a") rfl
  have hmem : ((0 : Fin 1), 0) ∈ found := hperm.mem_iff.mpr
    (mem_search_forward.mpr ⟨le_rfl, hstart, fun _ _ => Nat.zero_le _⟩)
  refine (h graph .inOrder "a" 0 0 ⟨"a", 0⟩ ?_).1 rfl
  rw [heq]
  exact List.mem_map.mpr ⟨_, hmem, rfl⟩

end InMemoryGraph
end Algorithms
end NestWeaver
