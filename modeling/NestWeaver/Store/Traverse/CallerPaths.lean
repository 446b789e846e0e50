import Mathlib.Algebra.Order.Ring.Rat
import NestWeaver.Store.Traverse.ImpactWalkInvariant

/-!
# Caller paths and the impact walk

The abstract side of the walk: `CallerPath` is a path of caller edges from the target, with its
number of edges and the product of their confidences, and says which paths the walk may use.

Two facts tie the walk to it.  Nothing is missed: every symbol ever taken off the queue had its
callers looked up at that depth, with the score it then had, and each of them is by now at least as
good as what that expansion offered (`Served`, `Served.path`).  Nothing is invented: every queue
entry and every node stands at the end of a path with as many edges as its depth (`Reached`).
-/

set_option linter.all false

namespace NestWeaver
namespace Traverse

open WorkLoop

/-- The edge a row delivered for `dst` stands for. -/
def CallerRow.edge (row : CallerRow) (dst : String) : TypedEdge :=
  ⟨row.uid, dst, row.edgeType, row.confidence⟩

/-- The caller query answers from the graph: it delivers the edges into the symbol of the requested
types that meet the confidence filter, in any order and with any repetition. -/
def Delivers (edges : List TypedEdge)
    (directCallers : ℕ → String → ℚ → List EdgeType → List CallerRow) : Prop :=
  ∀ n dst minConfidence types e,
    (∃ row ∈ directCallers n dst minConfidence types, row.edge dst = e) ↔
      e ∈ edges ∧ e.dst = dst ∧ e.edgeType ∈ types ∧ minConfidence ≤ e.confidence

variable (a : WalkArgs) (edges : List TypedEdge)

/-- The walk may follow an edge as the `k`-th of a path (from 0): the plan has its type there, it
meets the confidence filter, and its caller is an allowed symbol and not the target. -/
def WalkArgs.Follows (k : ℕ) (e : TypedEdge) : Prop :=
  e ∈ edges ∧ e.edgeType ∈ a.plan.edgesAtDepth k ∧ a.minConfidence ≤ e.confidence ∧ a.Admits e.src

/-- `CallerPath a edges keep u k p`: a path of `k` edges the walk may follow leads from the target
to its transitive caller `u`, its confidences have the product `p`, and every non-empty prefix has
a product in `keep`. -/
inductive CallerPath (keep : ℚ → Prop) : String → ℕ → ℚ → Prop
  | target : CallerPath keep a.targetUid 0 1
  | caller {k : ℕ} {p : ℚ} (e : TypedEdge) : CallerPath keep e.dst k p → a.Follows edges k e →
      keep (p * e.confidence) → CallerPath keep e.src (k + 1) (p * e.confidence)

variable {a edges} {keep : ℚ → Prop} {st st' : WalkState} {u v : String} {d k : ℕ} {s x p : ℚ}

lemma CallerPath.mono {keep' : ℚ → Prop} (h : CallerPath a edges keep u k p)
    (hkeep : ∀ x, keep x → keep' x) : CallerPath a edges keep' u k p := by
  induction h with
  | target => exact .target
  | caller e _ hfollow hk ih => exact .caller e ih hfollow (hkeep _ hk)

lemma CallerPath.pos (h : CallerPath a edges keep u k p) (hkeep : ∀ x, keep x → 0 < x) :
    0 < p := by
  cases h with
  | target => exact zero_lt_one
  | caller e _ _ hk => exact hkeep _ hk

/-- A path of at least one edge ends at an allowed symbol other than the target. -/
lemma CallerPath.admits (h : CallerPath a edges keep u k p) (hk : k ≠ 0) : a.Admits u := by
  cases h with
  | target => exact absurd rfl hk
  | caller e _ hfollow _ => exact hfollow.2.2.2

lemma callerPath_zero : CallerPath a edges keep u 0 p ↔ u = a.targetUid ∧ p = 1 := by
  constructor
  · rintro ⟨⟩
    exact ⟨rfl, rfl⟩
  · rintro ⟨rfl, rfl⟩
    exact .target

lemma callerPath_succ : CallerPath a edges keep u (k + 1) p ↔
    ∃ e q, CallerPath a edges keep e.dst k q ∧ a.Follows edges k e ∧ keep (q * e.confidence) ∧
      e.src = u ∧ q * e.confidence = p := by
  constructor
  · rintro (_ | ⟨e, hpre, hfollow, hk⟩)
    exact ⟨e, _, hpre, hfollow, hk, rfl, rfl⟩
  · rintro ⟨e, q, hpre, hfollow, hk, rfl, rfl⟩
    exact .caller e hpre hfollow hk

/-- A path carries over to a walk from the same target that may follow every edge into a symbol of
the path. -/
lemma CallerPath.transfer {b : WalkArgs} {edges' : List TypedEdge}
    (h : CallerPath a edges keep u k p) (htarget : a.targetUid = b.targetUid)
    (hfollow : ∀ k e, (e.dst = a.targetUid ∨ a.Admits e.dst) → a.Follows edges k e →
      b.Follows edges' k e) : CallerPath b edges' keep u k p := by
  induction h with
  | target => exact htarget ▸ .target
  | @caller k p e hpre hedge hk ih =>
    refine .caller e ih (hfollow k e ?_ hedge) hk
    by_cases hzero : k = 0
    · subst hzero
      exact .inl (callerPath_zero.mp hpre).1
    · exact .inr (hpre.admits hzero)

/-- The rows of an expansion are the edges the walk follows there. -/
lemma mem_callers_iff (hdeliver : Delivers edges a.directCallers) {e : TypedEdge} :
    (∃ row ∈ a.callers st u d, row.edge u = e ∧ a.Admits row.uid) ↔
      a.Follows edges d e ∧ e.dst = u := by
  have h := hdeliver st.queries u a.minConfidence (a.plan.edgesAtDepth d) e
  constructor
  · rintro ⟨row, hmem, rfl, hadm⟩
    obtain ⟨hedge, hdst, htype, hconf⟩ := h.mp ⟨row, hmem, rfl⟩
    exact ⟨⟨hedge, htype, hconf, hadm⟩, hdst⟩
  · rintro ⟨⟨hedge, htype, hconf, hadm⟩, hdst⟩
    obtain ⟨row, hmem, rfl⟩ := h.mpr ⟨hedge, hdst, htype, hconf⟩
    exact ⟨row, hmem, rfl, hadm⟩

/-! ## Progress of a state -/

/-- `st'` comes after `st` while an entry is expanded: scores only grow, a node changes only with
its score, entries stay queued and flags stay set. -/
structure Grows (st st' : WalkState) : Prop where
  score : ∀ v, st.score v ≤ st'.score v
  label : ∀ v, st.score v = st'.score v → st'.resultMap.lookup v = st.resultMap.lookup v
  queue : ∀ e ∈ st.queue, e ∈ st'.queue
  threshold : st.truncatedByThreshold = true → st'.truncatedByThreshold = true
  depth : st'.truncatedByDepth = st.truncatedByDepth

lemma Grows.refl (st : WalkState) : Grows st st :=
  ⟨fun _ => le_rfl, fun _ _ => rfl, fun _ h => h, fun h => h, rfl⟩

lemma Grows.trans {st'' : WalkState} (h : Grows st st') (h' : Grows st' st'') : Grows st st'' where
  score v := (h.score v).trans (h'.score v)
  label v heq := by
    have hle := h.score v
    have hle' := h'.score v
    have hmid : st.score v = st'.score v := le_antisymm hle (heq ▸ hle')
    rw [h'.label v (hmid ▸ heq), h.label v hmid]
  queue e he := h'.queue e (h.queue e he)
  threshold ht := h'.threshold (h.threshold ht)
  depth := h'.depth.trans h.depth

lemma Grows.improve {row : CallerRow} (hx : st.score row.uid < x) :
    Grows st (st.improve d row x) where
  score v := by
    rw [WalkState.score_improve]
    split_ifs with hv
    · exact hv ▸ hx.le
    · exact le_rfl
  label v heq := by
    rw [WalkState.score_improve] at heq
    split_ifs at heq with hv
    · exact absurd (hv ▸ heq) hx.ne
    · exact WalkState.lookup_improve_ne hv
  queue e he := by
    rw [WalkState.queue_improve]
    exact List.mem_append_left _ he
  threshold h := h
  depth := rfl

lemma grows_walkRow (row : CallerRow) : Grows st (walkRow a d s st row) := by
  obtain ⟨-, heq⟩ | ⟨-, -, heq⟩ | ⟨-, -, -, heq⟩ | ⟨-, -, hlt, heq⟩ := walkRow_cases a d s st row
  · rw [heq]
    exact .refl st
  · rw [heq]
    exact ⟨fun _ => le_rfl, fun _ _ => rfl, fun _ h => h, fun _ => rfl, rfl⟩
  · rw [heq]
    exact .refl st
  · rw [heq]
    exact .improve hlt

/-! ## Nothing is missed -/

/-- The expansions a walk has made: symbol, depth, and the score it had then. -/
abbrev History := Set (String × ℕ × ℚ)

/-- `v` was expanded, or is queued to be, at a depth of at most `k` with a score of at least `x`. -/
def Covered (st : WalkState) (H : History) (v : String) (k : ℕ) (x : ℚ) : Prop :=
  ∃ e ≤ k, ((v, e) ∈ st.queue ∧ x ≤ st.score v) ∨ ∃ s, x ≤ s ∧ (v, e, s) ∈ H

/-- The node of `v` is at least as good as the score `x` at depth `k`. -/
def Leads (st : WalkState) (v : String) (k : ℕ) (x : ℚ) : Prop :=
  x < st.score v ∨
    (x = st.score v ∧ ∃ n, st.resultMap.lookup v = some n ∧ n.depth ≤ k)

variable {H C : History}

lemma Covered.weaken {k' : ℕ} {x' : ℚ} (h : Covered st H v k x) (hk : k ≤ k') (hx : x' ≤ x) :
    Covered st H v k' x' := by
  obtain ⟨e, he, h⟩ := h
  refine ⟨e, he.trans hk, h.imp (fun h => ⟨h.1, hx.trans h.2⟩) ?_⟩
  exact fun ⟨s, hs, hmem⟩ => ⟨s, hx.trans hs, hmem⟩

lemma Covered.grows (h : Covered st H v k x) (hgrow : Grows st st') : Covered st' H v k x := by
  obtain ⟨e, he, h⟩ := h
  exact ⟨e, he, h.imp (fun h => ⟨hgrow.queue _ h.1, h.2.trans (hgrow.score v)⟩) id⟩

/-- What was queued is now queued or, if it is the entry in hand, in the history. -/
lemma Covered.pop {rest : List (String × ℕ)} (h : Covered st H v k x)
    (hqueue : st.queue = (u, d) :: rest) :
    Covered (st.pop rest) (insert (u, d, st.score u) H) v k x := by
  obtain ⟨e, he, ⟨hmem, hx⟩ | ⟨s, hs, hmem⟩⟩ := h
  · rw [hqueue] at hmem
    rcases List.mem_cons.mp hmem with heq | hmem
    · cases heq
      exact ⟨d, he, .inr ⟨st.score u, hx, Set.mem_insert _ _⟩⟩
    · exact ⟨e, he, .inl ⟨hmem, hx⟩⟩
  · exact ⟨e, he, .inr ⟨s, hs, Set.mem_insert_of_mem _ hmem⟩⟩

lemma Leads.weaken {k' : ℕ} {x' : ℚ} (h : Leads st v k x) (hk : k ≤ k') (hx : x' ≤ x) :
    Leads st v k' x' := by
  rcases h with h | ⟨h, n, hn, hdepth⟩
  · exact .inl (hx.trans_lt h)
  · rcases hx.lt_or_eq with hx | rfl
    · exact .inl (hx.trans_le h.le)
    · exact .inr ⟨h, n, hn, hdepth.trans hk⟩

lemma Leads.grows (h : Leads st v k x) (hgrow : Grows st st') : Leads st' v k x := by
  rcases h with h | ⟨h, n, hn, hdepth⟩
  · exact .inl (h.trans_le (hgrow.score v))
  · rcases (hgrow.score v).lt_or_eq with hlt | heq
    · exact .inl (h ▸ hlt)
    · exact .inr ⟨h.trans heq, n, by rw [hgrow.label v heq, hn], hdepth⟩

/-- What an expansion of `u` at depth `d` with score `s` has done about an edge into `u`: it was
pruned, with the flag set, or its caller is covered and has a node as good as the offer. -/
def ServedEdge (a : WalkArgs) (st : WalkState) (H : History) (d : ℕ) (s : ℚ) (e : TypedEdge) :
    Prop :=
  (s * e.confidence < a.minScore ∧ st.truncatedByThreshold = true) ∨
    (Covered st H e.src (d + 1) (s * e.confidence) ∧ Leads st e.src (d + 1) (s * e.confidence))

lemma ServedEdge.grows {e : TypedEdge} (h : ServedEdge a st H d s e) (hgrow : Grows st st') :
    ServedEdge a st' H d s e :=
  h.imp (fun h => ⟨h.1, hgrow.threshold h.2⟩) fun h => ⟨h.1.grows hgrow, h.2.grows hgrow⟩

/-- The invariant of completeness.  `H` holds every entry taken off the queue, `C` those whose
callers were looked up. -/
structure Served (a : WalkArgs) (edges : List TypedEdge) (st : WalkState) (H C : History) :
    Prop where
  start : Covered st H a.targetUid 0 1
  served : ∀ u d s, (u, d, s) ∈ C →
    (a.maxDepth ≤ d ∧ st.truncatedByDepth = true) ∨
      (d < a.maxDepth ∧ ∀ e, a.Follows edges d e → e.dst = u → 0 < s * e.confidence →
        ServedEdge a st H d s e)
  labelled : ∀ v n, st.resultMap.lookup v = some n → Covered st H v n.depth n.impactScore
  bounded : ∀ v d s, (v, d, s) ∈ H → s ≤ st.score v

lemma Served.init : Served a edges a.init ∅ ∅ where
  start := ⟨0, le_rfl, .inl ⟨by simp [WalkArgs.init], (WalkInv.init a).target.ge⟩⟩
  served u d s h := h.elim
  labelled v n h := by simp [WalkArgs.init, AList.lookup_empty] at h
  bounded v d s h := h.elim

/-- The entry in hand moves from the queue to the history. -/
lemma Served.pop {rest : List (String × ℕ)} (h : Served a edges st H C)
    (hqueue : st.queue = (u, d) :: rest) :
    Served a edges (st.pop rest) (insert (u, d, st.score u) H) C where
  start := h.start.pop hqueue
  served v k s hmem := by
    refine (h.served v k s hmem).imp id fun ⟨hk, hserved⟩ => ⟨hk, fun e he hdst hpos => ?_⟩
    exact (hserved e he hdst hpos).imp id fun ⟨hcov, hlead⟩ => ⟨hcov.pop hqueue, hlead⟩
  labelled v n hn := (h.labelled v n hn).pop hqueue
  bounded v k s hmem := by
    rcases Set.mem_insert_iff.mp hmem with heq | hmem
    · cases heq
      exact le_rfl
    · exact h.bounded v k s hmem

lemma Served.row (h : Served a edges st H C) (row : CallerRow) :
    Served a edges (walkRow a d s st row) H C where
  start := h.start.grows (grows_walkRow row)
  served v k t hmem := by
    rw [(grows_walkRow row).depth]
    refine (h.served v k t hmem).imp id fun ⟨hk, hserved⟩ => ⟨hk, fun e he hdst hpos => ?_⟩
    exact (hserved e he hdst hpos).grows (grows_walkRow row)
  labelled v n hn := by
    obtain ⟨-, heq⟩ | ⟨-, -, heq⟩ | ⟨-, -, -, heq⟩ | ⟨-, -, hlt, heq⟩ := walkRow_cases a d s st row
    · rw [heq] at hn ⊢
      exact h.labelled v n hn
    · rw [heq] at hn ⊢
      exact h.labelled v n hn
    · rw [heq] at hn ⊢
      exact h.labelled v n hn
    · rw [heq] at hn ⊢
      by_cases hv : v = row.uid
      · subst hv
        rw [WalkState.lookup_improve_self] at hn
        cases hn
        refine ⟨d + 1, le_rfl, .inl ⟨?_, ?_⟩⟩
        · rw [WalkState.queue_improve]
          exact List.mem_append_right _ (List.mem_singleton_self _)
        · rw [WalkState.score_improve, if_pos rfl]
      · rw [WalkState.lookup_improve_ne hv] at hn
        exact (h.labelled v n hn).grows (.improve hlt)
  bounded v k t hmem := (h.bounded v k t hmem).trans ((grows_walkRow row).score v)

/-- The row of an edge, just processed. -/
lemma servedEdge_walkRow (hinv : WalkInv a d st) (h : Served a edges st H C) {row : CallerRow}
    (hadm : a.Admits row.uid) (hpos : 0 < s * row.confidence) :
    ServedEdge a (walkRow a d s st row) H d s (row.edge u) := by
  obtain ⟨hno, -⟩ | ⟨-, hprune, heq⟩ | ⟨-, -, hle, heq⟩ | ⟨-, -, hlt, heq⟩ :=
    walkRow_cases a d s st row
  · exact absurd hadm hno
  · exact .inl ⟨hprune, by rw [heq]⟩
  · -- no better than the node of the caller, which is not deeper
    obtain ⟨n, hn⟩ := hinv.exists_label hadm.1 (hpos.trans_le hle)
    obtain ⟨-, hscore, -⟩ := hinv.labelled _ n hn
    have hdepth : n.depth ≤ d + 1 := hinv.depth_le _ n hn
    rw [heq]
    refine .inr ⟨(h.labelled _ n hn).weaken hdepth (hscore ▸ hle), ?_⟩
    rcases hle.lt_or_eq with hlt | heq'
    · exact .inl hlt
    · exact .inr ⟨heq', n, hn, hdepth⟩
  · rw [heq]
    refine .inr ⟨⟨d + 1, le_rfl, .inl ⟨?_, ?_⟩⟩, .inr ⟨?_, _, WalkState.lookup_improve_self, le_rfl⟩⟩
    · rw [WalkState.queue_improve]
      exact List.mem_append_right _ (List.mem_singleton_self _)
    · rw [CallerRow.edge, WalkState.score_improve, if_pos rfl]
    · rw [CallerRow.edge, WalkState.score_improve, if_pos rfl]

/-- After the expansion every row delivered for the entry is served. -/
lemma Served.rows (rows : List CallerRow) (hinv : WalkInv a d st) (h : Served a edges st H C) :
    Served a edges (rows.foldl (walkRow a d s) st) H C ∧
      ∀ row ∈ rows, a.Admits row.uid → 0 < s * row.confidence →
        ServedEdge a (rows.foldl (walkRow a d s) st) H d s (row.edge u) := by
  induction rows generalizing st with
  | nil => exact ⟨h, fun _ hmem => nomatch hmem⟩
  | cons row rows ih =>
    obtain ⟨hserved, hrows⟩ := ih hinv.walkRow (h.row row)
    refine ⟨hserved, fun r hr hadm hpos => ?_⟩
    rcases List.mem_cons.mp hr with rfl | hr
    · have hgrow : Grows (walkRow a d s st r)
          (rows.foldl (walkRow a d s) (walkRow a d s st r)) :=
        List.foldlRecOn (motive := Grows _) _ _ (.refl _) fun _ hst row' _ =>
          hst.trans (grows_walkRow row')
      exact (servedEdge_walkRow hinv h hadm hpos).grows hgrow
    · exact hrows r hr hadm hpos

/-- One pass of the walk. -/
lemma Served.step (hdeliver : Delivers edges a.directCallers) (hinv : WalkInv a k st)
    (h : Served a edges st H H) (hstep : walkStep a st = .inl st') :
    ∃ H', Served a edges st' H' H' := by
  obtain ⟨u, d, rest, hqueue, hcase⟩ := walkStep_cases hstep
  have hpop := h.pop hqueue
  refine ⟨insert (u, d, st.score u) H, ?_⟩
  obtain ⟨hdepth, rfl⟩ | ⟨hdepth, rfl⟩ := hcase
  · -- at the depth limit: the flag is set
    refine { hpop with served := fun v j s hmem => ?_ }
    rcases Set.mem_insert_iff.mp hmem with heq | hmem
    · cases heq
      exact .inl ⟨hdepth, rfl⟩
    · exact (hpop.served v j s hmem).imp (fun h => ⟨h.1, rfl⟩) id
  · -- the callers are walked
    have hinv' : WalkInv a d { st.pop rest with queries := (st.pop rest).queries + 1 } :=
      { hinv.pop hqueue with }
    obtain ⟨hserved, hrows⟩ := Served.rows (u := u) (s := st.score u)
      (a.callers (st.pop rest) u d) hinv' { hpop with }
    refine { hserved with served := fun v j s hmem => ?_ }
    rcases Set.mem_insert_iff.mp hmem with heq | hmem
    · cases heq
      refine .inr ⟨hdepth, fun e he hdst hpos => ?_⟩
      obtain ⟨row, hmem, rfl, hadm⟩ : ∃ row ∈ a.callers (st.pop rest) u d, row.edge u = e ∧
          a.Admits row.uid := (mem_callers_iff hdeliver).mpr ⟨he, hdst⟩
      exact hrows row hmem hadm hpos
    · exact hserved.served v j s hmem

/-- At every state of a walk all the expansions made so far are served. -/
lemma served_of_reaches (hdeliver : Delivers edges a.directCallers)
    (h : Reaches (walkStep a) a.init st) : ∃ H, Served a edges st H H := by
  have hrun : (∃ d, WalkInv a d st) ∧ ∃ H, Served a edges st H H := by
    refine h.invariant (P := fun st => (∃ d, WalkInv a d st) ∧ ∃ H, Served a edges st H H)
      ⟨⟨0, .init a⟩, ∅, .init⟩ ?_
    rintro t t' ⟨⟨k, hinv⟩, H, hserved⟩ hstep
    refine ⟨?_, hserved.step hdeliver hinv hstep⟩
    exact walkInv_step hinv hstep
  exact hrun.2

lemma WalkArgs.Follows.of_le {e : TypedEdge} (h : a.Follows edges k e) (hd : d ≤ k) :
    a.Follows edges d e :=
  ⟨h.1, a.plan.edgesAtDepth_subset_of_le hd h.2.1, h.2.2⟩

/-- **Nothing is missed.** The end of every path of positive products that is shorter than all entries of
the queue are deep was expanded, no deeper than the path is long and with at least its product, and its
node is as good; provided the path stays within the depth limit and the threshold, or the flag of the
one it oversteps is down. -/
lemma Served.path_of_level {m : ℕ} (hlevel : ∀ e ∈ st.queue, m ≤ e.2) (h : Served a edges st H H)
    (hpath : CallerPath a edges keep u k p) (hkeep : ∀ x, keep x → 0 < x)
    (hscore : (∀ x, keep x → a.minScore ≤ x) ∨ st.truncatedByThreshold = false)
    (hdepth : k ≤ a.maxDepth ∨ st.truncatedByDepth = false) (hk : k ≤ m) :
    (k < m → ∃ e ≤ k, ∃ s, p ≤ s ∧ (u, e, s) ∈ H) ∧ (k ≠ 0 → Leads st u k p) := by
  have hcovered : ∀ {v j x}, Covered st H v j x → j < m → ∃ e ≤ j, ∃ s, x ≤ s ∧ (v, e, s) ∈ H := by
    rintro v j x ⟨e, he, ⟨hmem, -⟩ | ⟨s, hs, hmem⟩⟩ hj
    · exact absurd (hlevel _ hmem) (not_le.mpr (he.trans_lt hj))
    · exact ⟨e, he, s, hs, hmem⟩
  induction hpath with
  | target => exact ⟨hcovered h.start, fun hk => absurd rfl hk⟩
  | @caller k p e hpre hfollow hkeep' ih =>
    obtain ⟨d, hd, s, hs, hmem⟩ := (ih (hdepth.imp_left (Nat.le_of_succ_le ·))
      (Nat.le_of_succ_le hk)).1 hk
    have hp : 0 < p := hpre.pos hkeep
    have hconf : 0 < e.confidence := pos_of_mul_pos_right (hkeep _ hkeep') hp.le
    have hoffer : p * e.confidence ≤ s * e.confidence := mul_le_mul_of_nonneg_right hs hconf.le
    have hserved := h.served _ d s hmem
    -- the end of the prefix was expanded, not stopped by the depth limit
    obtain ⟨hlimit, hflag⟩ | ⟨-, hserved⟩ := hserved
    · rcases hdepth with hdepth | hdepth
      · omega
      · simp [hdepth] at hflag
    rcases hserved e (hfollow.of_le hd) rfl (mul_pos (hp.trans_le hs) hconf) with
      ⟨hprune, hflag⟩ | ⟨hcov, hlead⟩
    · rcases hscore with hscore | hscore
      · exact absurd hprune (not_lt.mpr ((hscore _ hkeep').trans hoffer))
      · simp [hscore] at hflag
    · have hle : d + 1 ≤ k + 1 := Nat.succ_le_succ hd
      exact ⟨hcovered (hcov.weaken hle hoffer), fun _ => hlead.weaken hle hoffer⟩

/-- When the walk ends, this holds of all paths. -/
lemma Served.path (hend : st.queue = []) (h : Served a edges st H H)
    (hpath : CallerPath a edges keep u k p) (hkeep : ∀ x, keep x → 0 < x)
    (hscore : (∀ x, keep x → a.minScore ≤ x) ∨ st.truncatedByThreshold = false)
    (hdepth : k ≤ a.maxDepth ∨ st.truncatedByDepth = false) :
    (∃ e ≤ k, ∃ s, p ≤ s ∧ (u, e, s) ∈ H) ∧ (k ≠ 0 → Leads st u k p) := by
  have hlevel : ∀ e ∈ st.queue, k + 1 ≤ e.2 := by simp [hend]
  obtain ⟨hhistory, hlead⟩ :=
    h.path_of_level hlevel hpath hkeep hscore hdepth (Nat.le_succ k)
  exact ⟨hhistory (Nat.lt_succ_self k), hlead⟩

/-! ## Nothing is invented -/

/-- The invariant of soundness: entries and nodes stand at the end of a path of as many edges as
their depth. -/
structure Reached (a : WalkArgs) (edges : List TypedEdge) (st : WalkState) : Prop where
  entry : ∀ v d, (v, d) ∈ st.queue → ∃ p, CallerPath a edges (0 < ·) v d p
  node : ∀ v n, st.resultMap.lookup v = some n →
    n.depth ≤ a.maxDepth ∧ n.depth ≠ 0 ∧ ∃ p, CallerPath a edges (0 < ·) v n.depth p

lemma Reached.init : Reached a edges a.init where
  entry v d h := by
    obtain ⟨rfl, rfl⟩ : v = a.targetUid ∧ d = 0 := by simpa [WalkArgs.init] using h
    exact ⟨1, .target⟩
  node v n h := by simp [WalkArgs.init, AList.lookup_empty] at h

lemma Reached.improve (h : Reached a edges st) {row : CallerRow} (hd : d < a.maxDepth)
    (hrow : ∃ p, CallerPath a edges (0 < ·) row.uid (d + 1) p) :
    Reached a edges (st.improve d row x) where
  entry v k hmem := by
    rw [WalkState.queue_improve, List.mem_append] at hmem
    rcases hmem with hmem | hmem
    · exact h.entry v k hmem
    · obtain ⟨rfl, rfl⟩ := Prod.mk.inj (List.mem_singleton.mp hmem)
      exact hrow
  node v n hn := by
    by_cases hv : v = row.uid
    · subst hv
      rw [WalkState.lookup_improve_self] at hn
      cases hn
      exact ⟨hd, Nat.succ_ne_zero d, hrow⟩
    · rw [WalkState.lookup_improve_ne hv] at hn
      exact h.node v n hn

/-- A row that betters a score has a positive confidence. -/
lemma confidence_pos_of_better {row : CallerRow} (hinv : WalkInv a d st) (hs : 0 ≤ s)
    (hlt : st.score row.uid < s * row.confidence) : 0 < row.confidence :=
  pos_of_mul_pos_right ((hinv.score_nonneg _).trans_lt hlt) hs

lemma Reached.step (hdeliver : Delivers edges a.directCallers) (hinv : WalkInv a k st)
    (h : Reached a edges st) (hstep : walkStep a st = .inl st') : Reached a edges st' := by
  obtain ⟨u, d, rest, hqueue, hcase⟩ := walkStep_cases hstep
  have hpop : Reached a edges (st.pop rest) :=
    ⟨fun v j hmem => h.entry v j (by rw [hqueue]; exact List.mem_cons_of_mem _ hmem), h.node⟩
  obtain ⟨-, rfl⟩ | ⟨hdepth, rfl⟩ := hcase
  · exact ⟨hpop.entry, hpop.node⟩
  · obtain ⟨p, hpath⟩ := h.entry u d (by rw [hqueue]; exact List.mem_cons_self)
    have hs : 0 ≤ (st.pop rest).score u := hinv.score_nonneg u
    suffices hexpand : WalkInv a d (expand a (st.pop rest) u d) ∧
        Reached a edges (expand a (st.pop rest) u d) from hexpand.2
    refine expand_induction (P := fun t => WalkInv a d t ∧ Reached a edges t)
      ⟨{ hinv.pop hqueue with }, ⟨hpop.entry, hpop.node⟩⟩ ?_
    rintro t row hmem ⟨hinv', ht⟩
    refine ⟨hinv'.walkRow, ?_⟩
    obtain ⟨-, heq⟩ | ⟨-, -, heq⟩ | ⟨-, -, -, heq⟩ | ⟨hadm, -, hlt, heq⟩ :=
      walkRow_cases a d ((st.pop rest).score u) t row
    · rwa [heq]
    · rw [heq]
      exact ⟨ht.entry, ht.node⟩
    · rwa [heq]
    · rw [heq]
      have hconf : 0 < row.confidence := confidence_pos_of_better hinv' hs hlt
      obtain ⟨hfollow, hdst⟩ := (mem_callers_iff hdeliver).mp ⟨row, hmem, rfl, hadm⟩
      refine ht.improve hdepth ⟨_, .caller (row.edge u) hpath hfollow ?_⟩
      exact mul_pos (hpath.pos fun _ h => h) hconf

/-- **Nothing is invented.** -/
lemma reached_of_reaches (hdeliver : Delivers edges a.directCallers)
    (h : Reaches (walkStep a) a.init st) : Reached a edges st := by
  have hrun : (∃ d, WalkInv a d st) ∧ Reached a edges st := by
    refine h.invariant (P := fun st => (∃ d, WalkInv a d st) ∧ Reached a edges st)
      ⟨⟨0, .init a⟩, .init⟩ ?_
    rintro t t' ⟨⟨k, hinv⟩, ht⟩ hstep
    exact ⟨walkInv_step hinv hstep, ht.step hdeliver hinv hstep⟩
  exact hrun.2

/-! ## The result -/

/-- The result holds a node of the symbol. -/
def ImpactResult.Returns (r : ImpactResult) (uid : String) : Prop := ∃ n ∈ r.nodes, n.uid = uid

lemma mem_result_nodes {n : ImpactNode} :
    n ∈ (st.result a).nodes ↔ ∃ v, st.resultMap.lookup v = some n := by
  simp only [WalkState.result, List.mem_insertionSort, List.mem_map]
  constructor
  · rintro ⟨⟨v, m⟩, hmem, rfl⟩
    exact ⟨v, AList.mem_lookup_iff.mpr hmem⟩
  · rintro ⟨v, hv⟩
    exact ⟨⟨v, n⟩, AList.mem_lookup_iff.mp hv, rfl⟩

lemma result_returns_iff (hinv : WalkInv a d st) :
    (st.result a).Returns u ↔ ∃ n, st.resultMap.lookup u = some n := by
  constructor
  · rintro ⟨n, hn, rfl⟩
    obtain ⟨v, hv⟩ := mem_result_nodes.mp hn
    obtain ⟨rfl, -⟩ := hinv.labelled v n hv
    exact ⟨n, hv⟩
  · rintro ⟨n, hn⟩
    exact ⟨n, mem_result_nodes.mpr ⟨u, hn⟩, (hinv.labelled u n hn).1⟩

/-- A result is that of a reached state with an empty queue. -/
lemma runImpactWalk_ok {fuel : ℕ} {r : ImpactResult}
    (h : runImpactWalk a fuel = some (.ok r)) :
    ∃ st, Reaches (walkStep a) a.init st ∧ st.queue = [] ∧ r = st.result a := by
  obtain ⟨st, hreach, hstep⟩ := runLoop_eq_some h
  obtain ⟨hqueue, rfl⟩ := walkStep_ok hstep
  exact ⟨st, hreach, hqueue, rfl⟩

/-! ## A query that delivers the edges in the order of the graph -/

/-- The rows of the edges into `dst`, in the order of the edge list. -/
def callersInOrder (edges : List TypedEdge) (dst : String) (minConfidence : ℚ)
    (types : List EdgeType) : List CallerRow :=
  (edges.filter fun e => e.dst = dst ∧ e.edgeType ∈ types ∧ minConfidence ≤ e.confidence).map
    fun e => ⟨e.src, e.src, "lib.rs", 1, e.edgeType, e.confidence⟩

lemma delivers_callersInOrder (edges : List TypedEdge) :
    Delivers edges fun _ => callersInOrder edges := by
  intro n dst minConfidence types e
  simp only [callersInOrder, List.mem_map, List.mem_filter, decide_eq_true_eq]
  constructor
  · rintro ⟨row, ⟨f, ⟨hf, rfl, htype, hconf⟩, rfl⟩, rfl⟩
    exact ⟨hf, rfl, htype, hconf⟩
  · rintro ⟨he, rfl, htype, hconf⟩
    exact ⟨_, ⟨e, ⟨he, rfl, htype, hconf⟩, rfl⟩, rfl⟩

end Traverse
end NestWeaver
