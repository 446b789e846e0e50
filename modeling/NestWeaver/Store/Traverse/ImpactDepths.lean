import NestWeaver.Store.Traverse.ImpactBest

/-!
# The depths of the impact walk

A node stands at the depth of the path that last raised its score, which need not be a shortest one.
The depths that a walk ends with are those of the shortest paths within the limits exactly when no
longer path has a greater product than all the shortest ones (`depths_shortest_iff`), whatever the
order of delivery.
-/

set_option linter.all false

namespace NestWeaver
namespace Traverse

open WorkLoop

section Statement

variable (a : WalkArgs) (edges : List TypedEdge)

/-- The length of a shortest path within the limits. -/
def IsShortest (u : String) (k : ℕ) : Prop := IsLeast {j | ∃ p, BoundedPath a edges u j p} k

/-- A shortest path within the limits has the greatest product of them all. -/
def Straight (u : String) : Prop :=
  ∀ k p, BoundedPath a edges u k p → ∃ j q, IsShortest a edges u j ∧ BoundedPath a edges u j q ∧ p ≤ q

/-- Every node stands at the end of a shortest path with its score, and is queued at its depth. -/
structure Levelled (st : WalkState) : Prop where
  bounded : ∀ v n, st.resultMap.lookup v = some n → BoundedPath a edges v n.depth n.impactScore
  least : ∀ v n, st.resultMap.lookup v = some n → ∀ j q, BoundedPath a edges v j q → n.depth ≤ j
  entry : ∀ v k, (v, k) ∈ st.queue →
    v = a.targetUid ∨ ∃ n, st.resultMap.lookup v = some n ∧ n.depth = k

/-- A node stands deeper than a path within the limits that leads to it. -/
def TooDeep (st : WalkState) : Prop :=
  ∃ v n j q, st.resultMap.lookup v = some n ∧ BoundedPath a edges v j q ∧ j < n.depth

end Statement

variable {a : WalkArgs} {edges : List TypedEdge} {st st' t : WalkState} {u v : String} {d k : ℕ}
  {s x p : ℚ} {row : CallerRow} {keep : ℚ → Prop} {H : History}

/-! ## One row -/

lemma Levelled.init : Levelled a edges a.init where
  bounded v n hn := by simp [WalkArgs.init, AList.lookup_empty] at hn
  least v n hn := by simp [WalkArgs.init, AList.lookup_empty] at hn
  entry v k hmem := by
    left
    simp only [WalkArgs.init, List.mem_singleton, Prod.mk.injEq] at hmem
    exact hmem.1

/-- A rise by a path that is no longer than any other one. -/
lemma Levelled.improve (hinv : WalkInv a d st) (h : Levelled a edges st)
    (hpath : BoundedPath a edges row.uid (d + 1) x)
    (hleast : ∀ j q, BoundedPath a edges row.uid j q → d + 1 ≤ j) :
    Levelled a edges (st.improve d row x) where
  bounded v n hn := by
    by_cases hv : v = row.uid
    · subst hv
      rw [WalkState.lookup_improve_self] at hn
      cases hn
      exact hpath
    · rw [WalkState.lookup_improve_ne hv] at hn
      exact h.bounded v n hn
  least v n hn := by
    by_cases hv : v = row.uid
    · subst hv
      rw [WalkState.lookup_improve_self] at hn
      cases hn
      exact hleast
    · rw [WalkState.lookup_improve_ne hv] at hn
      exact h.least v n hn
  entry v k hmem := by
    rw [WalkState.queue_improve] at hmem
    rcases List.mem_append.mp hmem with hmem | hmem
    · refine (h.entry v k hmem).imp_right fun ⟨n, hn, hdepth⟩ => ?_
      by_cases hv : v = row.uid
      · -- it was queued at this depth before
        subst hv
        refine ⟨_, WalkState.lookup_improve_self, ?_⟩
        have hle := hinv.depth_le _ n hn
        have hge := hleast _ _ (h.bounded _ n hn)
        change d + 1 = k
        omega
      · exact ⟨n, by rw [WalkState.lookup_improve_ne hv, hn], hdepth⟩
    · obtain ⟨rfl, rfl⟩ := Prod.mk.inj (List.mem_singleton.mp hmem)
      exact .inr ⟨_, WalkState.lookup_improve_self, rfl⟩

/-- A row delivered for an entry that stands at the end of a path of its depth: a symbol that rises is at
its level, or there is a shorter path to it. -/
lemma Levelled.walkRow (hinv : WalkInv a d t) (h : Levelled a edges t) (hd : d < a.maxDepth)
    (hpre : CallerPath a edges a.Keeps u d s)
    (hfollow : a.Admits row.uid → a.Follows edges d (row.edge u)) :
    Levelled a edges (walkRow a d s t row) ∨
      TooDeep a edges (walkRow a d s t row) ∧ t.score row.uid < s * row.confidence ∧
        BoundedPath a edges row.uid (d + 1) (s * row.confidence) ∧
        ∃ j q, BoundedPath a edges row.uid j q ∧ j ≤ d := by
  obtain ⟨-, heq⟩ | ⟨-, -, heq⟩ | ⟨-, -, -, heq⟩ | ⟨hadm, hkeep, hlt, heq⟩ :=
    walkRow_cases a d s t row
  · rw [heq]
    exact .inl h
  · rw [heq]
    exact .inl ⟨h.bounded, h.least, h.entry⟩
  · rw [heq]
    exact .inl h
  · rw [heq]
    have hpos : 0 < s * row.confidence := (hinv.score_nonneg _).trans_lt hlt
    have hpath : BoundedPath a edges row.uid (d + 1) (s * row.confidence) :=
      ⟨Nat.succ_ne_zero d, hd, .caller (row.edge u) hpre (hfollow hadm) ⟨hpos, hkeep⟩⟩
    by_cases hshort : ∃ j q, BoundedPath a edges row.uid j q ∧ j ≤ d
    · obtain ⟨j, q, hshort, hle⟩ := hshort
      refine .inr ⟨?_, hlt, hpath, j, q, hshort, hle⟩
      exact ⟨_, _, j, q, WalkState.lookup_improve_self, hshort, Nat.lt_succ_of_le hle⟩
    · refine .inl (h.improve hinv hpath fun j q hj => ?_)
      exact not_le.mp fun hle => hshort ⟨j, q, hj, hle⟩

/-- A node only goes down. -/
lemma TooDeep.walkRow (hinv : WalkInv a d t) (h : TooDeep a edges t) :
    TooDeep a edges (walkRow a d s t row) := by
  obtain ⟨v, n, j, q, hn, hpath, hlt⟩ := h
  obtain ⟨-, heq⟩ | ⟨-, -, heq⟩ | ⟨-, -, -, heq⟩ | ⟨-, -, -, heq⟩ := walkRow_cases a d s t row
  · exact ⟨v, n, j, q, by rw [heq]; exact hn, hpath, hlt⟩
  · exact ⟨v, n, j, q, by rw [heq]; exact hn, hpath, hlt⟩
  · exact ⟨v, n, j, q, by rw [heq]; exact hn, hpath, hlt⟩
  · rw [heq]
    by_cases hv : v = row.uid
    · subst hv
      exact ⟨_, _, j, q, WalkState.lookup_improve_self, hpath,
        hlt.trans_le (hinv.depth_le _ n hn)⟩
    · exact ⟨v, n, j, q, by rw [WalkState.lookup_improve_ne hv, hn], hpath, hlt⟩

/-! ## One pass -/

/-- The entry on turn stands at the end of a path of its depth with its score. -/
lemma Levelled.head {rest : List (String × ℕ)} (hinv : WalkInv a k st) (h : Levelled a edges st)
    (hqueue : st.queue = (u, d) :: rest) : CallerPath a edges a.Keeps u d (st.score u) := by
  have hmem : (u, d) ∈ st.queue := by rw [hqueue]; exact List.mem_cons_self
  rcases h.entry u d hmem with rfl | ⟨n, hn, rfl⟩
  · obtain rfl := hinv.target_entry d hmem
    exact hinv.target ▸ .target
  · obtain ⟨-, hscore, -⟩ := hinv.labelled u n hn
    exact hscore ▸ (h.bounded u n hn).2.2

lemma Levelled.pop {rest : List (String × ℕ)} (h : Levelled a edges st)
    (hqueue : st.queue = (u, d) :: rest) : Levelled a edges (st.pop rest) :=
  ⟨h.bounded, h.least, fun v k hmem => h.entry v k (by rw [hqueue]; exact List.mem_cons_of_mem _ hmem)⟩

/-- The rows of an entry that stands at the end of a path of its depth. -/
lemma Levelled.expand {rest : List (String × ℕ)} (hdeliver : Delivers edges a.directCallers)
    (hinv : WalkInv a k st) (h : Levelled a edges st) (hqueue : st.queue = (u, d) :: rest)
    (hd : d < a.maxDepth)
    (hshort : ∀ v x, st.score v < x → BoundedPath a edges v (d + 1) x →
      ∀ j q, BoundedPath a edges v j q → d < j) :
    Levelled a edges (expand a (st.pop rest) u d) := by
  have hpre := h.head hinv hqueue
  have hpop := h.pop hqueue
  suffices hexpand : WalkInv a d (Traverse.expand a (st.pop rest) u d) ∧
      Grows st { Traverse.expand a (st.pop rest) u d with queue := st.queue } ∧
      Levelled a edges (Traverse.expand a (st.pop rest) u d) from hexpand.2.2
  refine expand_induction (P := fun t => WalkInv a d t ∧ Grows st { t with queue := st.queue } ∧
    Levelled a edges t) ⟨{ hinv.pop hqueue with }, ?_, ⟨hpop.bounded, hpop.least, hpop.entry⟩⟩ ?_
  · exact ⟨fun _ => le_rfl, fun _ _ => rfl, fun _ h => h, fun h => h, rfl⟩
  rintro t row hmem ⟨hinv', hgrow, ht⟩
  have hrow : Grows t (Traverse.walkRow a d ((st.pop rest).score u) t row) := grows_walkRow row
  refine ⟨hinv'.walkRow, hgrow.trans ⟨hrow.score, hrow.label, fun _ h => h, hrow.threshold,
    hrow.depth⟩, ?_⟩
  have hfollow : a.Admits row.uid → a.Follows edges d (row.edge u) := fun hadm =>
    ((mem_callers_iff hdeliver).mp ⟨row, hmem, rfl, hadm⟩).1
  rcases ht.walkRow hinv' hd hpre hfollow with hlevel | ⟨-, hlt, hpath, j, q, hj, hle⟩
  · exact hlevel
  · have hrise := (hgrow.score row.uid).trans_lt hlt
    exact absurd hle (not_le.mpr (hshort _ _ hrise hpath j q hj))

/-- A pass keeps all nodes at their levels, or puts one too deep. -/
lemma Levelled.step (hdeliver : Delivers edges a.directCallers) (hinv : WalkInv a k st)
    (h : Levelled a edges st) (hstep : walkStep a st = .inl st') :
    Levelled a edges st' ∨ TooDeep a edges st' := by
  obtain ⟨u, d, rest, hqueue, hcase⟩ := walkStep_cases hstep
  have hpre := h.head hinv hqueue
  have hpop := h.pop hqueue
  obtain ⟨-, rfl⟩ | ⟨hdepth, rfl⟩ := hcase
  · exact .inl ⟨hpop.bounded, hpop.least, hpop.entry⟩
  suffices hexpand : WalkInv a d (Traverse.expand a (st.pop rest) u d) ∧
      (Levelled a edges (Traverse.expand a (st.pop rest) u d) ∨
        TooDeep a edges (Traverse.expand a (st.pop rest) u d)) from hexpand.2
  refine expand_induction (P := fun t => WalkInv a d t ∧ (Levelled a edges t ∨ TooDeep a edges t))
    ⟨{ hinv.pop hqueue with }, .inl ⟨hpop.bounded, hpop.least, hpop.entry⟩⟩ ?_
  rintro t row hmem ⟨hinv', ht⟩
  refine ⟨hinv'.walkRow, ?_⟩
  have hfollow : a.Admits row.uid → a.Follows edges d (row.edge u) := fun hadm =>
    ((mem_callers_iff hdeliver).mp ⟨row, hmem, rfl, hadm⟩).1
  rcases ht with ht | ht
  · exact (ht.walkRow hinv' hdepth hpre hfollow).imp_right fun h => h.1
  · exact .inr (ht.walkRow hinv')

lemma TooDeep.step (hinv : WalkInv a k st) (h : TooDeep a edges st)
    (hstep : walkStep a st = .inl st') : TooDeep a edges st' := by
  obtain ⟨u, d, rest, hqueue, ⟨-, rfl⟩ | ⟨-, rfl⟩⟩ := walkStep_cases hstep
  · exact h
  suffices hexpand : WalkInv a d (Traverse.expand a (st.pop rest) u d) ∧
      TooDeep a edges (Traverse.expand a (st.pop rest) u d) from hexpand.2
  refine expand_induction (P := fun t => WalkInv a d t ∧ TooDeep a edges t)
    ⟨{ hinv.pop hqueue with }, h⟩ ?_
  rintro t row - ⟨hinv', ht⟩
  exact ⟨hinv'.walkRow, ht.walkRow hinv'⟩

/-! ## A whole walk -/

/-- As long as no node is too deep, all are at their levels. -/
lemma levelled_or_tooDeep (hdeliver : Delivers edges a.directCallers)
    (h : Reaches (walkStep a) a.init st) : Levelled a edges st ∨ TooDeep a edges st := by
  have hrun : (∃ d, WalkInv a d st) ∧ (Levelled a edges st ∨ TooDeep a edges st) := by
    refine h.invariant (P := fun st => (∃ d, WalkInv a d st) ∧
      (Levelled a edges st ∨ TooDeep a edges st)) ⟨⟨0, .init a⟩, .inl .init⟩ ?_
    rintro t t' ⟨⟨k, hinv⟩, ht⟩ hstep
    refine ⟨walkInv_step hinv hstep, ?_⟩
    rcases ht with ht | ht
    · exact ht.step hdeliver hinv hstep
    · exact .inr (ht.step hinv hstep)
  exact hrun.2

/-- Where no longer path has a greater product, all nodes are at their levels. -/
lemma levelled_of_straight (hdeliver : Delivers edges a.directCallers)
    (hstraight : ∀ u, Straight a edges u) (h : Reaches (walkStep a) a.init st) :
    Levelled a edges st := by
  have hrun : (∃ d, WalkInv a d st) ∧ (∃ H, Served a edges st H H) ∧ Levelled a edges st := by
    refine h.invariant (P := fun st => (∃ d, WalkInv a d st) ∧ (∃ H, Served a edges st H H) ∧
      Levelled a edges st) ⟨⟨0, .init a⟩, ⟨∅, .init⟩, .init⟩ ?_
    rintro t t' ⟨⟨k, hinv⟩, ⟨H, hserved⟩, ht⟩ hstep
    refine ⟨walkInv_step hinv hstep, hserved.step hdeliver hinv hstep, ?_⟩
    obtain ⟨u, d, rest, hqueue, ⟨-, rfl⟩ | ⟨hd, rfl⟩⟩ := walkStep_cases hstep
    · exact ⟨(ht.pop hqueue).bounded, (ht.pop hqueue).least, (ht.pop hqueue).entry⟩
    refine ht.expand hdeliver hinv hqueue hd fun v x hrise hpath j q hj => ?_
    -- the shorter paths have been walked before
    obtain ⟨i, r, hleast, hi, hle⟩ := hstraight v _ _ hpath
    refine lt_of_lt_of_le (not_le.mp fun hid => ?_) (hleast.2 ⟨q, hj⟩)
    have hlevel : ∀ e ∈ t.queue, d ≤ e.2 := fun e he => by
      have hsorted := hinv.sorted
      rw [hqueue] at he hsorted
      rcases List.mem_cons.mp he with rfl | he
      · exact le_rfl
      · exact (List.pairwise_cons.mp hsorted).1 e he
    obtain ⟨hi0, himax, hi⟩ := hi
    have hlead : Leads t v i r :=
      (hserved.path_of_level hlevel hi (fun _ h => h.1) (.inl fun _ h => h.2) (.inl himax) hid).2 hi0
    have hscore : r ≤ t.score v := hlead.elim le_of_lt fun h => h.1.le
    exact absurd (hle.trans hscore) (not_le.mpr hrise)
  exact hrun.2.2

/-- **The depths of a walk** are the lengths of the shortest paths within the limits exactly when these
have the greatest products. -/
lemma depths_shortest_iff (hdeliver : Delivers edges a.directCallers)
    (hreach : Reaches (walkStep a) a.init st) (hend : st.queue = []) :
    (∀ n ∈ (st.result a).nodes, IsShortest a edges n.uid n.depth) ↔ ∀ u, Straight a edges u := by
  obtain ⟨d, hinv⟩ := walkInv_of_reaches hreach
  have hnode : ∀ v n, st.resultMap.lookup v = some n → n ∈ (st.result a).nodes ∧ n.uid = v :=
    fun v n hn => ⟨mem_result_nodes.mpr ⟨v, hn⟩, (hinv.labelled v n hn).1⟩
  constructor
  · intro h
    have hlevel : Levelled a edges st := by
      rcases levelled_or_tooDeep hdeliver hreach with hlevel | ⟨v, n, j, q, hn, hpath, hlt⟩
      · exact hlevel
      · obtain ⟨hmem, huid⟩ := hnode v n hn
        have hleast := (h n hmem).2 ⟨q, huid.symm ▸ hpath⟩
        exact absurd hlt (not_lt.mpr hleast)
    intro u k p hpath
    obtain ⟨n, hn⟩ := (result_returns_iff hinv).mp (returns_of_boundedPath hdeliver hreach hend hpath)
    obtain ⟨hmem, rfl⟩ := hnode u n hn
    refine ⟨n.depth, n.impactScore, h n hmem, hlevel.bounded _ n hn, ?_⟩
    have hscore := (hinv.labelled _ n hn).2.1
    rcases leads_of_boundedPath hdeliver hreach hend hpath with hlt | ⟨heq, -⟩
    · exact hscore ▸ hlt.le
    · exact hscore ▸ heq.le
  · intro h n hmem
    have hlevel := levelled_of_straight hdeliver h hreach
    obtain ⟨v, hn⟩ := mem_result_nodes.mp hmem
    obtain ⟨-, rfl⟩ := hnode v n hn
    exact ⟨⟨_, hlevel.bounded _ n hn⟩, fun j ⟨q, hj⟩ => hlevel.least _ n hn j q hj⟩

end Traverse
end NestWeaver
