import Mathlib.Algebra.BigOperators.Ring.Finset
import Mathlib.Algebra.Order.Field.Rat
import Mathlib.Data.Fintype.BigOperators
import Mathlib.Tactic.Linarith
import Mathlib.Tactic.Positivity

/-!
# Adjacency of a graph

`crates/nestweaver-algorithms/src/graph.rs`: the weighted adjacency that ranking works on, built from a
list of edges.  Weights are rational numbers, and indices are below the number of UIDs.

The weight that leaves a node is the sum of what its successors receive (`Balanced`), whatever the
edges are.
-/

set_option linter.all false

namespace NestWeaver
namespace Algorithms

open Finset

inductive EdgeKind
  | calls | imports | «extends» | implements | uses | accesses | memberOf | includes
  | projectIncludesNote | projectIncludesSymbol | wikilinkToNote | wikilinkToHeading | other
  deriving DecidableEq, Repr

structure EdgeWeightConfig where
  callsMultiplier : ℚ
  projectIncludesMultiplier : ℚ

def EdgeWeightConfig.defaultConfig : EdgeWeightConfig := ⟨1, 1⟩

/-- Coupling strength. -/
def baseWeight : EdgeKind → ℚ
  | .calls => 1
  | .extends | .implements => 0.9
  | .imports => 0.7
  | .uses => 0.5
  | .accesses => 0.4
  | .memberOf | .includes => 0.2
  | .projectIncludesNote | .projectIncludesSymbol => 1
  | _ => 1

def EdgeWeightConfig.intentMultiplier (weights : EdgeWeightConfig) : EdgeKind → ℚ
  | .calls => weights.callsMultiplier
  | .projectIncludesNote | .projectIncludesSymbol => weights.projectIncludesMultiplier
  | _ => 1

/-- The metadata of nodes and the generation, which ranking does not read, are left out.  An edge has
its source, its target and its confidence. -/
structure InMemoryGraph where
  uids : List String
  edges : List (ℕ × ℕ × ℚ × EdgeKind)

structure AdjacencyData (n : ℕ) where
  uidToIdx : String → Option (Fin n)
  incoming : Fin n → List (Fin n × ℚ)
  outWeight : Fin n → ℚ

variable {n : ℕ}

/-- One directed edge. -/
def AdjacencyData.link (adjacency : AdjacencyData n) (u v : Fin n) (w : ℚ) : AdjacencyData n :=
  { adjacency with
    outWeight := Function.update adjacency.outWeight u (adjacency.outWeight u + w)
    incoming := Function.update adjacency.incoming v (adjacency.incoming v ++ [(u, w)]) }

/-- An edge, and its reverse at 30%. -/
def AdjacencyData.addEdge (weights : EdgeWeightConfig) (adjacency : AdjacencyData n)
    (edge : ℕ × ℕ × ℚ × EdgeKind) : AdjacencyData n :=
  let (src, tgt, conf, kind) := edge
  if hsrc : src < n then
    if htgt : tgt < n then
      if conf ≤ 0 then adjacency
      else
        let w := conf * baseWeight kind * weights.intentMultiplier kind
        (adjacency.link ⟨src, hsrc⟩ ⟨tgt, htgt⟩ w).link ⟨tgt, htgt⟩ ⟨src, hsrc⟩ (w * 0.3)
    else adjacency
  else adjacency

/-- The last of equal UIDs counts. -/
def InMemoryGraph.buildAdjacency (graph : InMemoryGraph) (weights : EdgeWeightConfig) :
    AdjacencyData graph.uids.length :=
  graph.edges.foldl (AdjacencyData.addEdge weights)
    { uidToIdx := fun uid =>
        (List.finRange graph.uids.length).reverse.find? fun i => graph.uids.get i = uid
      incoming := fun _ => []
      outWeight := fun _ => 0 }

/-! ## Flow -/

/-- The weight from one node to another. -/
def AdjacencyData.flow (adjacency : AdjacencyData n) (u v : Fin n) : ℚ :=
  ((adjacency.incoming v).map fun edge => if edge.1 = u then edge.2 else 0).sum

/-- What leaves a node arrives. -/
def AdjacencyData.Balanced (adjacency : AdjacencyData n) : Prop :=
  ∀ u, ∑ v, adjacency.flow u v = adjacency.outWeight u

/-- No weight is negative. -/
def AdjacencyData.Nonneg (adjacency : AdjacencyData n) : Prop :=
  ∀ u, 0 ≤ adjacency.outWeight u

variable {adjacency : AdjacencyData n}

lemma AdjacencyData.flow_link (u v : Fin n) (w : ℚ) (u' v' : Fin n) :
    (adjacency.link u v w).flow u' v' =
      adjacency.flow u' v' + if u = u' ∧ v = v' then w else 0 := by
  by_cases hv : v' = v
  · subst hv
    by_cases hu : u = u'
    · simp [AdjacencyData.flow, AdjacencyData.link, hu]
    · simp [AdjacencyData.flow, AdjacencyData.link, hu]
  · have hv' : ¬(u = u' ∧ v = v') := fun h => hv h.2.symm
    simp [AdjacencyData.flow, AdjacencyData.link, Function.update_of_ne hv, if_neg hv']

lemma AdjacencyData.Balanced.link (h : adjacency.Balanced) (u v : Fin n) (w : ℚ) :
    (adjacency.link u v w).Balanced := by
  intro u'
  have hsum : ∑ v', (adjacency.link u v w).flow u' v' =
      adjacency.outWeight u' + if u = u' then w else 0 := by
    simp only [AdjacencyData.flow_link, sum_add_distrib, h u']
    by_cases hu : u = u'
    · simp [hu]
    · simp [hu]
  rw [hsum]
  by_cases hu : u' = u
  · subst hu
    simp [AdjacencyData.link]
  · simp [AdjacencyData.link, Function.update_of_ne hu, Ne.symm hu]

lemma AdjacencyData.Balanced.addEdge (h : adjacency.Balanced) (weights : EdgeWeightConfig)
    (edge : ℕ × ℕ × ℚ × EdgeKind) : (adjacency.addEdge weights edge).Balanced := by
  obtain ⟨src, tgt, conf, kind⟩ := edge
  rw [AdjacencyData.addEdge]
  split_ifs
  · exact h
  · exact (h.link _ _ _).link _ _ _
  · exact h
  · exact h

/-- **Adjacency is balanced.** -/
lemma InMemoryGraph.balanced_buildAdjacency (graph : InMemoryGraph) (weights : EdgeWeightConfig) :
    (graph.buildAdjacency weights).Balanced := by
  refine List.foldlRecOn (motive := AdjacencyData.Balanced) graph.edges _ ?_
    fun adjacency h edge _ => h.addEdge weights edge
  intro u
  simp [AdjacencyData.flow]

lemma AdjacencyData.Nonneg.link (h : adjacency.Nonneg) (u v : Fin n) {w : ℚ} (hw : 0 ≤ w) :
    (adjacency.link u v w).Nonneg := by
  intro u'
  by_cases hu : u' = u
  · subst hu
    have hout := h u'
    simp only [AdjacencyData.link, Function.update_self]
    linarith
  · simp only [AdjacencyData.link, Function.update_of_ne hu]
    exact h u'

lemma baseWeight_nonneg (kind : EdgeKind) : 0 ≤ baseWeight kind := by
  cases kind <;> norm_num [baseWeight]

lemma AdjacencyData.Nonneg.addEdge (h : adjacency.Nonneg) {weights : EdgeWeightConfig}
    (hweights : ∀ kind, 0 ≤ weights.intentMultiplier kind) (edge : ℕ × ℕ × ℚ × EdgeKind) :
    (adjacency.addEdge weights edge).Nonneg := by
  obtain ⟨src, tgt, conf, kind⟩ := edge
  rw [AdjacencyData.addEdge]
  split_ifs with hsrc htgt hconf
  · exact h
  · have hbase := baseWeight_nonneg kind
    have hmultiplier := hweights kind
    have hw : 0 ≤ conf * baseWeight kind * weights.intentMultiplier kind := by
      have hpos : 0 ≤ conf := (not_le.mp hconf).le
      positivity
    exact (h.link _ _ hw).link _ _ (by positivity)
  · exact h
  · exact h

lemma InMemoryGraph.nonneg_buildAdjacency (graph : InMemoryGraph) {weights : EdgeWeightConfig}
    (hweights : ∀ kind, 0 ≤ weights.intentMultiplier kind) :
    (graph.buildAdjacency weights).Nonneg :=
  List.foldlRecOn (motive := AdjacencyData.Nonneg) graph.edges _ (fun _ => le_rfl)
    fun _ h edge _ => h.addEdge hweights edge

end Algorithms
end NestWeaver
