import NestWeaver.Store.Traverse.CallerPaths

/-!
# The truncation flags

A result without a flag is meant to hold every dependent.  It holds exactly those that some path of
positive confidences reaches (`mem_result_iff_of_no_flag`): an edge of confidence 0 makes a
candidate of score 0, which betters nothing, so its caller is dropped without a flag, also where a
threshold of 0 asks for the full traversal.
-/

set_option linter.all false

namespace NestWeaver
namespace Traverse

open WorkLoop

variable (a : WalkArgs) (edges : List TypedEdge)

/-- An allowed symbol other than the target that reaches it by admissible edges, any number of
them. -/
def Dependent (u : String) : Prop :=
  ∃ k p, k ≠ 0 ∧ CallerPath a edges (fun _ => True) u k p

/-- A dependent with at most `m` edges to the target. -/
def DependentWithin (m : ℕ) (u : String) : Prop :=
  ∃ k p, k ≠ 0 ∧ k ≤ m ∧ CallerPath a edges (fun _ => True) u k p

/-- A dependent by edges of positive confidence. -/
def PositiveDependent (u : String) : Prop :=
  ∃ k p, k ≠ 0 ∧ CallerPath a edges (0 < ·) u k p

/-- A dependent by at most `m` edges of positive confidence. -/
def PositiveDependentWithin (m : ℕ) (u : String) : Prop :=
  ∃ k p, k ≠ 0 ∧ k ≤ m ∧ CallerPath a edges (0 < ·) u k p

variable {a edges} {r : ImpactResult} {fuel : ℕ} {u : String} {m : ℕ}

lemma PositiveDependent.dependent (h : PositiveDependent a edges u) : Dependent a edges u := by
  obtain ⟨k, p, hk, hpath⟩ := h
  exact ⟨k, p, hk, hpath.mono fun _ _ => trivial⟩

lemma PositiveDependentWithin.positive (h : PositiveDependentWithin a edges m u) :
    PositiveDependent a edges u := by
  obtain ⟨k, p, hk, -, hpath⟩ := h
  exact ⟨k, p, hk, hpath⟩

/-- Every returned symbol is a dependent by at most `max_depth` edges of positive confidence. -/
lemma positiveDependentWithin_of_returns (hdeliver : Delivers edges a.directCallers)
    (hrun : runImpactWalk a fuel = some (.ok r)) (h : r.Returns u) :
    PositiveDependentWithin a edges a.maxDepth u := by
  obtain ⟨st, hreach, -, rfl⟩ := runImpactWalk_ok hrun
  obtain ⟨d, hinv⟩ := walkInv_of_reaches hreach
  obtain ⟨n, hn⟩ := (result_returns_iff hinv).mp h
  obtain ⟨hle, hne, p, hpath⟩ := (reached_of_reaches hdeliver hreach).node u n hn
  exact ⟨n.depth, p, hne, hle, hpath⟩

/-- A dependent by a path the walk follows to its end is returned. -/
lemma returns_of_path (hdeliver : Delivers edges a.directCallers)
    (hrun : runImpactWalk a fuel = some (.ok r)) {k : ℕ} {p : ℚ} (hk : k ≠ 0)
    (hpath : CallerPath a edges (0 < ·) u k p)
    (hscore : (∀ x : ℚ, 0 < x → a.minScore ≤ x) ∨ r.truncatedByThreshold = false)
    (hdepth : k ≤ a.maxDepth ∨ r.truncatedByDepth = false) : r.Returns u := by
  obtain ⟨st, hreach, hend, rfl⟩ := runImpactWalk_ok hrun
  obtain ⟨d, hinv⟩ := walkInv_of_reaches hreach
  obtain ⟨H, hserved⟩ := served_of_reaches hdeliver hreach
  have hlead : Leads st u k p := (hserved.path hend hpath (fun _ h => h) hscore hdepth).2 hk
  have hpos : 0 < st.score u := by
    rcases hlead with hlt | ⟨heq, -⟩
    · exact (hpath.pos fun _ h => h).trans hlt
    · exact heq ▸ hpath.pos fun _ h => h
  exact (result_returns_iff hinv).mpr (hinv.exists_label (hpath.admits hk).1 hpos)

/-- Without a flag the result holds exactly the dependents by edges of positive confidence. -/
lemma returns_iff_of_no_flag (hdeliver : Delivers edges a.directCallers)
    (hrun : runImpactWalk a fuel = some (.ok r)) (hthreshold : r.truncatedByThreshold = false)
    (hdepth : r.truncatedByDepth = false) : r.Returns u ↔ PositiveDependent a edges u := by
  constructor
  · exact fun h => (positiveDependentWithin_of_returns hdeliver hrun h).positive
  · rintro ⟨k, p, hk, hpath⟩
    exact returns_of_path hdeliver hrun hk hpath (.inr hthreshold) (.inr hdepth)

/-- With the threshold at 0 the result holds exactly the dependents by at most `max_depth` edges of
positive confidence. -/
lemma returns_iff_of_minScore_zero (hdeliver : Delivers edges a.directCallers)
    (hrun : runImpactWalk a fuel = some (.ok r)) (hzero : a.minScore = 0) :
    r.Returns u ↔ PositiveDependentWithin a edges a.maxDepth u := by
  constructor
  · exact positiveDependentWithin_of_returns hdeliver hrun
  · rintro ⟨k, p, hk, hle, hpath⟩
    exact returns_of_path hdeliver hrun hk hpath (.inl fun x hx => hzero ▸ hx.le) (.inl hle)

/-- The walk for `--min-score 0` from `target`, five levels deep, over the given edges. -/
def fullTraversal (edges : List TypedEdge) : WalkArgs where
  targetUid := "target"
  maxDepth := 5
  minConfidence := 0
  plan := .new impactEdgeTypes [] 0
  minScore := 0
  allowedSymbols := none
  cancel := none
  directCallers := fun _ => callersInOrder edges

/-- `caller` calls `target`, and the edge has confidence 0. -/
def zeroEdge : List TypedEdge := [⟨"caller", "target", .calls, 0⟩]

/-- The result of the walk over `zeroEdge`. -/
def zeroResult : ImpactResult := ⟨[], false, false, impactEdgeTypes⟩

end Traverse
end NestWeaver
