import NestWeaver.Store.Traverse.CallerPaths

/-!
# The best bounded path

The walk is meant to give each transitive caller the best product of confidences over the paths
within the limits, and the least length of a path that attains it (`BestPaths`).  It never falls
short of that.  It can overshoot: an entry is queued with the depth of the path that queued it, and
when a longer path raises the score before the entry is taken up, the raised score is passed on as
if it had been reached at the smaller depth.

`Fresh` says of a state that this does not happen in its next pass.  In a walk through fresh states
only, the result is the best bounded path (`runImpactWalk_best`), whatever the order of delivery.
-/

set_option linter.all false

namespace NestWeaver
namespace Traverse

open WorkLoop

variable (a : WalkArgs) (edges : List TypedEdge)

/-- The products a path may have on its way: positive and not below the threshold. -/
def WalkArgs.Keeps (x : ℚ) : Prop := 0 < x ∧ a.minScore ≤ x

/-- A path within the limits: at least one edge, at most `max_depth`. -/
def BoundedPath (u : String) (k : ℕ) (p : ℚ) : Prop :=
  k ≠ 0 ∧ k ≤ a.maxDepth ∧ CallerPath a edges a.Keeps u k p

/-- What the walk is for. -/
structure BestPaths (r : ImpactResult) : Prop where
  returns_iff : ∀ u, r.Returns u ↔ ∃ k p, BoundedPath a edges u k p
  attained : ∀ n ∈ r.nodes, BoundedPath a edges n.uid n.depth n.impactScore
  score_max : ∀ n ∈ r.nodes, ∀ k p, BoundedPath a edges n.uid k p → p ≤ n.impactScore
  depth_least : ∀ n ∈ r.nodes, ∀ k, BoundedPath a edges n.uid k n.impactScore → n.depth ≤ k

/-- The next pass passes on no score that a path longer than its depth has raised: the entry on
turn stands at the depth of its symbol's node, or at the depth limit, or none of its callers would
be recorded. -/
def Fresh (st : WalkState) : Prop :=
  ∀ u d rest n, st.queue = (u, d) :: rest → d < a.maxDepth → st.resultMap.lookup u = some n →
    n.depth ≠ d → ∀ row ∈ a.callers (st.pop rest) u d, a.Admits row.uid →
      a.minScore ≤ st.score u * row.confidence → st.score u * row.confidence ≤ st.score row.uid

variable {a edges} {st st' : WalkState} {u v : String} {d k : ℕ} {s x p : ℚ}

/-- The invariant of exactness: every node is the end of a path of its depth and its score. -/
def Exact (a : WalkArgs) (edges : List TypedEdge) (st : WalkState) : Prop :=
  ∀ v n, st.resultMap.lookup v = some n → CallerPath a edges a.Keeps v n.depth n.impactScore

lemma Exact.init : Exact a edges a.init := by
  intro v n h
  simp [WalkArgs.init, AList.lookup_empty] at h

lemma Exact.improve (h : Exact a edges st) {row : CallerRow}
    (hrow : CallerPath a edges a.Keeps row.uid (d + 1) x) :
    Exact a edges (st.improve d row x) := by
  intro v n hn
  by_cases hv : v = row.uid
  · subst hv
    rw [WalkState.lookup_improve_self] at hn
    cases hn
    exact hrow
  · rw [WalkState.lookup_improve_ne hv] at hn
    exact h v n hn

/-- The score an expansion passes on belongs to a path as long as its depth, or is not recorded
anywhere. -/
lemma expansion_exact {rest : List (String × ℕ)} (hinv : WalkInv a k st) (h : Exact a edges st)
    (hfresh : Fresh a st) (hqueue : st.queue = (u, d) :: rest) (hd : d < a.maxDepth) :
    CallerPath a edges a.Keeps u d (st.score u) ∨
      ∀ row ∈ a.callers (st.pop rest) u d, a.Admits row.uid →
        a.minScore ≤ st.score u * row.confidence →
        st.score u * row.confidence ≤ st.score row.uid := by
  by_cases hu : u = a.targetUid
  · subst hu
    obtain rfl : d = 0 := hinv.target_entry d (by rw [hqueue]; exact List.mem_cons_self)
    exact .inl (hinv.target ▸ .target)
  cases hn : st.resultMap.lookup u with
  | none =>
    refine .inr fun row _ _ _ => ?_
    rw [hinv.unlabelled u hu hn, zero_mul]
    exact hinv.score_nonneg _
  | some n =>
    by_cases hdepth : n.depth = d
    · obtain ⟨-, hscore, -⟩ := hinv.labelled u n hn
      exact .inl (hscore ▸ hdepth ▸ h u n hn)
    · exact .inr (hfresh u d rest n hqueue hd hn hdepth)

lemma Exact.step (hdeliver : Delivers edges a.directCallers) (hinv : WalkInv a k st)
    (hfresh : Fresh a st) (h : Exact a edges st) (hstep : walkStep a st = .inl st') :
    Exact a edges st' := by
  obtain ⟨u, d, rest, hqueue, hcase⟩ := walkStep_cases hstep
  obtain ⟨-, rfl⟩ | ⟨hdepth, rfl⟩ := hcase
  · exact h
  have hoffer := expansion_exact hinv h hfresh hqueue hdepth
  suffices hexpand : WalkInv a d (expand a (st.pop rest) u d) ∧
      Grows st { expand a (st.pop rest) u d with queue := st.queue } ∧
      Exact a edges (expand a (st.pop rest) u d) from hexpand.2.2
  refine expand_induction (P := fun t => WalkInv a d t ∧ Grows st { t with queue := st.queue } ∧
    Exact a edges t) ⟨{ hinv.pop hqueue with }, ?_, h⟩ ?_
  · exact ⟨fun _ => le_rfl, fun _ _ => rfl, fun _ h => h, fun h => h, rfl⟩
  rintro t row hmem ⟨hinv', hgrow, ht⟩
  have hrow : Grows t (walkRow a d ((st.pop rest).score u) t row) := grows_walkRow row
  refine ⟨hinv'.walkRow, hgrow.trans ⟨hrow.score, hrow.label, fun _ h => h, hrow.threshold,
    hrow.depth⟩, ?_⟩
  obtain ⟨-, heq⟩ | ⟨-, -, heq⟩ | ⟨-, -, -, heq⟩ | ⟨hadm, hkeep, hlt, heq⟩ :=
    walkRow_cases a d ((st.pop rest).score u) t row
  · rwa [heq]
  · rw [heq]
    exact ht
  · rwa [heq]
  · rw [heq]
    rcases hoffer with hpath | hnone
    · -- the entry stands at the end of a path of its depth and score
      obtain ⟨hfollow, -⟩ := (mem_callers_iff hdeliver).mp ⟨row, hmem, rfl, hadm⟩
      have hpos := (hinv'.score_nonneg _).trans_lt hlt
      exact ht.improve (.caller (row.edge u) hpath hfollow ⟨hpos, hkeep⟩)
    · have hle : t.score row.uid < st.score row.uid := hlt.trans_le (hnone row hmem hadm hkeep)
      exact absurd (hgrow.score row.uid) (not_le.mpr hle)

lemma exact_of_reaches (hdeliver : Delivers edges a.directCallers)
    (hfresh : ∀ st, Reaches (walkStep a) a.init st → Fresh a st)
    (h : Reaches (walkStep a) a.init st) : Exact a edges st := by
  have hrun : (∃ d, WalkInv a d st) ∧ Exact a edges st := by
    refine h.invariant_of (P := fun st => (∃ d, WalkInv a d st) ∧ Exact a edges st)
      (Q := Fresh a) ⟨⟨0, .init a⟩, .init⟩ hfresh ?_
    rintro t t' ⟨⟨k, hinv⟩, ht⟩ hfresh' hstep
    exact ⟨walkInv_step hinv hstep, ht.step hdeliver hinv hfresh' hstep⟩
  exact hrun.2

/-- The node of a symbol is at least as good as every path to it. -/
lemma leads_of_boundedPath (hdeliver : Delivers edges a.directCallers)
    (hreach : Reaches (walkStep a) a.init st) (hend : st.queue = [])
    (h : BoundedPath a edges u k p) : Leads st u k p := by
  obtain ⟨H, hserved⟩ := served_of_reaches hdeliver hreach
  obtain ⟨hk, hle, hpath⟩ := h
  exact (hserved.path hend hpath (fun _ h => h.1) (.inl fun _ h => h.2) (.inl hle)).2 hk

/-- Every symbol that a path within the limits reaches is returned. -/
lemma returns_of_boundedPath (hdeliver : Delivers edges a.directCallers)
    (hreach : Reaches (walkStep a) a.init st) (hend : st.queue = [])
    (hpath : BoundedPath a edges u k p) : (st.result a).Returns u := by
  obtain ⟨d, hinv⟩ := walkInv_of_reaches hreach
  have hp : 0 < p := hpath.2.2.pos fun _ h => h.1
  rw [result_returns_iff hinv]
  refine hinv.exists_label (hpath.2.2.admits hpath.1).1 ?_
  rcases leads_of_boundedPath hdeliver hreach hend hpath with hlt | ⟨heq, -⟩
  · exact hp.trans hlt
  · exact heq ▸ hp

/-- The final state of a walk through fresh states holds the best paths. -/
lemma bestPaths_of_fresh (hdeliver : Delivers edges a.directCallers)
    (hfresh : ∀ st, Reaches (walkStep a) a.init st → Fresh a st)
    (hreach : Reaches (walkStep a) a.init st) (hend : st.queue = []) :
    BestPaths a edges (st.result a) := by
  obtain ⟨d, hinv⟩ := walkInv_of_reaches hreach
  have hexact := exact_of_reaches hdeliver hfresh hreach
  have hreached := reached_of_reaches hdeliver hreach
  have hnode : ∀ n ∈ (st.result a).nodes, st.resultMap.lookup n.uid = some n := by
    intro n hn
    obtain ⟨v, hv⟩ := mem_result_nodes.mp hn
    obtain ⟨rfl, -⟩ := hinv.labelled v n hv
    exact hv
  have hattained : ∀ v n, st.resultMap.lookup v = some n →
      BoundedPath a edges v n.depth n.impactScore := by
    intro v n hn
    obtain ⟨hle, hne, -⟩ := hreached.node v n hn
    exact ⟨hne, hle, hexact v n hn⟩
  have hscore : ∀ n ∈ (st.result a).nodes, st.score n.uid = n.impactScore := fun n hn =>
    (hinv.labelled _ n (hnode n hn)).2.1
  constructor
  · intro u
    constructor
    · intro hu
      obtain ⟨n, hn⟩ := (result_returns_iff hinv).mp hu
      exact ⟨_, _, hattained u n hn⟩
    · rintro ⟨k, p, hpath⟩
      exact returns_of_boundedPath hdeliver hreach hend hpath
  · exact fun n hn => hattained _ n (hnode n hn)
  · intro n hn k p hpath
    rcases leads_of_boundedPath hdeliver hreach hend hpath with hlt | ⟨heq, -⟩
    · exact hscore n hn ▸ hlt.le
    · exact hscore n hn ▸ heq.le
  · intro n hn k hpath
    rcases leads_of_boundedPath hdeliver hreach hend hpath with hlt | ⟨-, m, hm, hdepth⟩
    · exact absurd (hscore n hn) hlt.ne'
    · rw [hnode n hn] at hm
      cases hm
      exact hdepth

/-- **The best bounded path**, for every graph, all parameters and every order of delivery, in a
walk through fresh states. -/
lemma runImpactWalk_best (hdeliver : Delivers edges a.directCallers) (hcancel : a.cancel = none)
    (hfresh : ∀ st, Reaches (walkStep a) a.init st → Fresh a st) :
    ∃ fuel r, runImpactWalk a fuel = some (.ok r) ∧ BestPaths a edges r := by
  obtain ⟨fuel, hrun⟩ := runImpactWalk_impactWalk a
  obtain ⟨st, hreach, hstep⟩ := runLoop_eq_some hrun
  cases hresult : impactWalk a with
  | error e => exact absurd (hresult ▸ hstep) (walkStep_not_error hcancel)
  | ok r =>
    rw [hresult] at hrun hstep
    obtain ⟨hend, rfl⟩ := walkStep_ok hstep
    exact ⟨fuel, _, hrun, bestPaths_of_fresh hdeliver hfresh hreach hend⟩

/-- Two results that hold the best paths hold the same symbols at the same depths. -/
lemma BestPaths.same_depths {b : WalkArgs} {edges' : List TypedEdge} {r r' : ImpactResult}
    (h : BestPaths a edges r) (h' : BestPaths b edges' r')
    (hpaths : ∀ u k p, BoundedPath b edges' u k p ↔ BoundedPath a edges u k p) {n : ImpactNode}
    (hn : n ∈ r.nodes) : ∃ n' ∈ r'.nodes, n'.uid = n.uid ∧ n'.depth = n.depth := by
  have hpath := h.attained n hn
  obtain ⟨n', hn', huid⟩ := (h'.returns_iff n.uid).mpr ⟨_, _, (hpaths _ _ _).mpr hpath⟩
  have hpath' := (hpaths _ _ _).mp (h'.attained n' hn')
  rw [huid] at hpath'
  have hscore : n'.impactScore = n.impactScore := by
    refine le_antisymm (h.score_max n hn _ _ hpath') (h'.score_max n' hn' n.depth _ ?_)
    rw [huid]
    exact (hpaths _ _ _).mpr hpath
  refine ⟨n', hn', huid, le_antisymm (h'.depth_least n' hn' _ ?_) (h.depth_least n hn _ ?_)⟩
  · rw [huid, hscore]
    exact (hpaths _ _ _).mpr hpath
  · rw [← hscore]
    exact hpath'

/-- A walk of depth one goes through fresh states only: all it expands is the target. -/
lemma fresh_of_maxDepth_le_one (hdeliver : Delivers edges a.directCallers) (h : a.maxDepth ≤ 1)
    (hreach : Reaches (walkStep a) a.init st) : Fresh a st := by
  intro u d rest n hqueue hd hn _
  obtain ⟨k, hinv⟩ := walkInv_of_reaches hreach
  obtain ⟨p, hpath⟩ := (reached_of_reaches hdeliver hreach).entry u d
    (by rw [hqueue]; exact List.mem_cons_self)
  obtain rfl : d = 0 := by omega
  rw [(callerPath_zero.mp hpath).1, hinv.target_unlabelled] at hn
  cases hn

end Traverse
end NestWeaver
