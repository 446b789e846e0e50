import Mathlib.Algebra.BigOperators.Fin
import NestWeaver.Algorithms.Ppr

/-!
# Mass under ranking

Power iteration keeps the sum of the scores (`sum_powerStep`).  Forward push resets the residual of the
node that it pushes after the shares are handed out, so what the node gave itself is lost
(`PushState.mass_push`).  Mass is conserved in exactly the runs that never push a node that has a share
in its own mass (`forwardPush_conserves_iff`).
-/

set_option linter.all false

namespace NestWeaver
namespace Algorithms

open Finset

variable {n : ℕ} {adjacency : AdjacencyData n} {damping : ℚ} {teleport : Scores n}

/-! ## Sums -/

lemma sum_update (f : Scores n) (v : Fin n) (x : ℚ) :
    ∑ i, Function.update f v x i = ∑ i, f i - f v + x := by
  have hsplit := Finset.sum_update_of_mem (Finset.mem_univ v) f x
  have hrest := Finset.add_sum_erase Finset.univ f (Finset.mem_univ v)
  rw [Finset.sdiff_singleton_eq_erase] at hsplit
  linarith

lemma sum_map_filter {α : Type*} (l : List α) (p : α → Prop) [DecidablePred p] (f : α → ℚ) :
    ((l.filter fun x => p x).map f).sum = (l.map fun x => if p x then f x else 0).sum := by
  induction l with
  | nil => rfl
  | cons x l ih =>
    by_cases hx : p x
    · simp [hx, ih]
    · simp [hx, ih]

lemma sum_finRange (f : Scores n) : ((List.finRange n).map f).sum = ∑ i, f i :=
  (Fin.sum_univ_def f).symm

/-! ## Outgoing edges -/

lemma sum_outgoing_fold (edges : List (Fin n × ℚ)) (v u : Fin n) (f : Fin n × ℚ → ℚ)
    (lists : Fin n → List (Fin n × ℚ)) :
    ((edges.foldl (fun lists (s, w) => Function.update lists s (lists s ++ [(v, w)])) lists u).map
      f).sum =
      ((lists u).map f).sum + (edges.map fun edge => if edge.1 = u then f (v, edge.2) else 0).sum := by
  induction edges generalizing lists with
  | nil => simp
  | cons edge edges ih =>
    rw [List.foldl_cons, ih, List.map_cons, List.sum_cons]
    by_cases hu : edge.1 = u
    · subst hu
      simp only [Function.update_self, List.map_append, List.map_cons, List.map_nil, List.sum_append,
        List.sum_cons, List.sum_nil, if_true]
      ring
    · simp only [Function.update_of_ne (Ne.symm hu), if_neg hu]
      ring

/-- The outgoing edges are the incoming ones. -/
lemma sum_outgoing (adjacency : AdjacencyData n) (v : Fin n) (f : Fin n × ℚ → ℚ) :
    ((outgoing adjacency v).map f).sum =
      ∑ u, ((adjacency.incoming u).map fun edge => if edge.1 = v then f (u, edge.2) else 0).sum := by
  have hfold : ∀ (nodes : List (Fin n)) (lists : Fin n → List (Fin n × ℚ)),
      ((nodes.foldl (fun lists u => (adjacency.incoming u).foldl (fun lists (s, w) =>
        Function.update lists s (lists s ++ [(u, w)])) lists) lists v).map f).sum =
        ((lists v).map f).sum + (nodes.map fun u =>
          ((adjacency.incoming u).map fun edge => if edge.1 = v then f (u, edge.2) else 0).sum).sum := by
    intro nodes
    induction nodes with
    | nil => simp
    | cons u nodes ih =>
      intro lists
      rw [List.foldl_cons, ih, sum_outgoing_fold, List.map_cons, List.sum_cons]
      ring
  rw [outgoing, hfold, sum_finRange]
  simp

/-! ## Shares -/

/-- A distribution. -/
structure Distribution (teleport : Scores n) : Prop where
  nonneg : ∀ i, 0 ≤ teleport i
  total : ∑ i, teleport i = 1

lemma distribution_personalization {seeds : Finset (Fin n)} (h : seeds.Nonempty) :
    Distribution (personalization seeds) where
  nonneg i := by
    rw [personalization]
    split_ifs
    · positivity
    · exact le_rfl
  total := by
    have hcard : (seeds.card : ℚ) ≠ 0 := by exact_mod_cast h.card_pos.ne'
    simp only [personalization, Finset.sum_ite_mem, Finset.univ_inter, Finset.sum_const, nsmul_eq_mul]
    field_simp

lemma sum_filter_teleport (hteleport : Distribution teleport) (mass : ℚ) (f : Fin n → ℚ → ℚ)
    (hf : ∀ i, f i 0 = 0) :
    (((List.finRange n).filter fun i => 0 < teleport i).map fun i => f i (mass * teleport i)).sum =
      ∑ i, f i (mass * teleport i) := by
  have hsum := sum_map_filter (List.finRange n) (fun i => 0 < teleport i)
    (fun i => f i (mass * teleport i))
  rw [hsum, sum_finRange]
  refine Finset.sum_congr rfl fun i _ => ?_
  by_cases hi : 0 < teleport i
  · rw [if_pos hi]
  · have hzero : teleport i = 0 := le_antisymm (not_lt.mp hi) (hteleport.nonneg i)
    rw [if_neg hi, hzero, mul_zero, hf]

/-- The part of its mass that a node hands to itself when it is pushed. -/
def selfShare (adjacency : AdjacencyData n) (teleport : Scores n) (v : Fin n) : ℚ :=
  if 0 < adjacency.outWeight v then adjacency.flow v v / adjacency.outWeight v else teleport v

/-- All that is pushed is handed out. -/
lemma sum_shares (hbalanced : adjacency.Balanced) (hteleport : Distribution teleport) (v : Fin n)
    (mass : ℚ) : ((shares adjacency teleport v mass).map Prod.snd).sum = mass := by
  rw [shares]
  by_cases hout : 0 < adjacency.outWeight v
  · rw [if_pos hout, List.map_map]
    have hsum := sum_outgoing adjacency v fun edge => mass * edge.2 / adjacency.outWeight v
    have hflow : ∀ u, ((adjacency.incoming u).map fun edge => if edge.1 = v then
        mass * edge.2 / adjacency.outWeight v else 0).sum =
          adjacency.flow v u * (mass / adjacency.outWeight v) := by
      intro u
      rw [AdjacencyData.flow, ← List.sum_map_mul_right]
      congr 1
      refine List.map_congr_left fun edge _ => ?_
      by_cases hv : edge.1 = v
      · rw [if_pos hv, if_pos hv]
        ring
      · rw [if_neg hv, if_neg hv, zero_mul]
    calc ((outgoing adjacency v).map fun edge => mass * edge.2 / adjacency.outWeight v).sum
        = ∑ u, adjacency.flow v u * (mass / adjacency.outWeight v) :=
          hsum.trans (Finset.sum_congr rfl fun u _ => hflow u)
      _ = adjacency.outWeight v * (mass / adjacency.outWeight v) := by
          rw [← Finset.sum_mul, hbalanced v]
      _ = mass := by field_simp
  · rw [if_neg hout, List.map_map]
    have hsum := sum_filter_teleport hteleport mass (fun _ x => x) fun _ => rfl
    refine hsum.trans ?_
    rw [← Finset.mul_sum, hteleport.total, mul_one]

lemma sum_shares_self (hteleport : Distribution teleport) (v : Fin n) (mass : ℚ) :
    ((shares adjacency teleport v mass).map fun share => if share.1 = v then share.2 else 0).sum =
      mass * selfShare adjacency teleport v := by
  rw [shares, selfShare]
  by_cases hout : 0 < adjacency.outWeight v
  · rw [if_pos hout, if_pos hout, List.map_map]
    have hsum := sum_outgoing adjacency v fun edge => if edge.1 = v then mass * edge.2 / adjacency.outWeight v else 0
    have hflow : ∀ u, ((adjacency.incoming u).map fun edge => if edge.1 = v then
        (if u = v then mass * edge.2 / adjacency.outWeight v else 0) else 0).sum =
          if u = v then adjacency.flow v v * (mass / adjacency.outWeight v) else 0 := by
      intro u
      by_cases hu : u = v
      · subst hu
        rw [if_pos rfl, AdjacencyData.flow, ← List.sum_map_mul_right]
        congr 1
        refine List.map_congr_left fun edge _ => ?_
        by_cases hv : edge.1 = u
        · rw [if_pos hv, if_pos hv, if_pos rfl]
          ring
        · rw [if_neg hv, if_neg hv, zero_mul]
      · simp [hu]
    refine hsum.trans ((Finset.sum_congr rfl fun u _ => hflow u).trans ?_)
    rw [Finset.sum_ite_eq' Finset.univ v, if_pos (Finset.mem_univ v)]
    ring
  · rw [if_neg hout, if_neg hout, List.map_map]
    have hsum := sum_filter_teleport hteleport mass (fun i x => if i = v then x else 0) fun _ =>
      ite_self 0
    refine hsum.trans ?_
    rw [Finset.sum_ite_eq' Finset.univ v, if_pos (Finset.mem_univ v)]

/-! ## Pushing -/

def PushState.mass (s : PushState n) : ℚ := ∑ i, s.estimate i + ∑ i, s.residual i

variable {s t : PushState n}

@[simp] lemma PushState.receive_estimate (s : PushState n) (share : Fin n × ℚ) :
    (s.receive share).estimate = s.estimate := by
  obtain ⟨u, delta⟩ := share
  rw [PushState.receive]
  split_ifs <;> rfl

@[simp] lemma PushState.receive_residual (s : PushState n) (share : Fin n × ℚ) :
    (s.receive share).residual =
      Function.update s.residual share.1 (s.residual share.1 + share.2) := by
  obtain ⟨u, delta⟩ := share
  rw [PushState.receive]
  split_ifs <;> rfl

lemma PushState.receive_all (shares : List (Fin n × ℚ)) (s : PushState n) (v : Fin n) :
    (shares.foldl PushState.receive s).estimate = s.estimate ∧
      ∑ i, (shares.foldl PushState.receive s).residual i =
        ∑ i, s.residual i + (shares.map Prod.snd).sum ∧
      (shares.foldl PushState.receive s).residual v =
        s.residual v + (shares.map fun share => if share.1 = v then share.2 else 0).sum := by
  induction shares generalizing s with
  | nil => simp
  | cons share shares ih =>
    obtain ⟨hestimate, htotal, hself⟩ := ih (s.receive share)
    rw [List.foldl_cons]
    refine ⟨by rw [hestimate, PushState.receive_estimate], ?_, ?_⟩
    · rw [htotal, PushState.receive_residual, sum_update, List.map_cons, List.sum_cons]
      ring
    · rw [hself, PushState.receive_residual, List.map_cons, List.sum_cons]
      by_cases hv : share.1 = v
      · subst hv
        rw [Function.update_self, if_pos rfl]
        ring
      · rw [Function.update_of_ne (Ne.symm hv), if_neg hv]
        ring

lemma PushState.push_pushCount (s : PushState n) (v : Fin n) :
    (s.push adjacency damping teleport v).pushCount = s.pushCount := by
  have hreceive : ∀ (s : PushState n) share, (s.receive share).pushCount = s.pushCount := by
    intro s share
    rw [PushState.receive]
    split_ifs <;> rfl
  have hall : ∀ (shares : List (Fin n × ℚ)) (s : PushState n),
      (shares.foldl PushState.receive s).pushCount = s.pushCount := by
    intro shares
    induction shares with
    | nil => exact fun _ => rfl
    | cons share shares ih => exact fun s => (ih _).trans (hreceive s share)
  exact hall _ _

/-- **What a push loses** is what the node hands to itself. -/
lemma PushState.mass_push (hbalanced : adjacency.Balanced) (hteleport : Distribution teleport)
    (s : PushState n) (v : Fin n) :
    (s.push adjacency damping teleport v).mass =
      s.mass - damping * s.residual v * selfShare adjacency teleport v := by
  set handed := shares adjacency teleport v ((1 - (1 - damping)) * s.residual v) with hhanded
  set absorbed : PushState n :=
    { s with estimate := Function.update s.estimate v (s.estimate v + (1 - damping) * s.residual v) }
    with habsorbed
  obtain ⟨hestimate, htotal, hself⟩ := PushState.receive_all handed absorbed v
  have hpush : s.push adjacency damping teleport v =
      { handed.foldl PushState.receive absorbed with
        residual := Function.update (handed.foldl PushState.receive absorbed).residual v 0 } := rfl
  have hsum : (handed.map Prod.snd).sum = (1 - (1 - damping)) * s.residual v :=
    sum_shares hbalanced hteleport v _
  have hback : (handed.map fun share => if share.1 = v then share.2 else 0).sum =
      (1 - (1 - damping)) * s.residual v * selfShare adjacency teleport v :=
    sum_shares_self hteleport v _
  rw [hpush, PushState.mass, PushState.mass]
  dsimp only
  rw [sum_update, hestimate, htotal, hself, hsum, hback, habsorbed]
  dsimp only
  rw [sum_update]
  ring

/-! ## Power iteration -/

lemma sum_incoming (edges : List (Fin n × ℚ)) (h : Fin n → ℚ) :
    (edges.map fun edge => edge.2 * h edge.1).sum =
      ∑ u, (edges.map fun edge => if edge.1 = u then edge.2 else 0).sum * h u := by
  induction edges with
  | nil => simp
  | cons edge edges ih => simp [ih, add_mul, Finset.sum_add_distrib]

lemma powerStep_apply (scores : Scores n) (v : Fin n) :
    powerStep adjacency damping teleport scores v =
      (1 - damping) * teleport v + damping * danglingSum adjacency scores * teleport v +
        ∑ u, adjacency.flow u v * (if 0 < adjacency.outWeight u then
          damping * scores u / adjacency.outWeight u else 0) := by
  have hfold : ∀ (edges : List (Fin n × ℚ)) (score : ℚ), edges.foldl (fun score (u, w) =>
      if 0 < adjacency.outWeight u then score + damping * scores u * w / adjacency.outWeight u
      else score) score = score + (edges.map fun edge => edge.2 *
        (if 0 < adjacency.outWeight edge.1 then damping * scores edge.1 / adjacency.outWeight edge.1
          else 0)).sum := by
    intro edges
    induction edges with
    | nil => simp
    | cons edge edges ih =>
      intro score
      rw [List.foldl_cons, ih, List.map_cons, List.sum_cons]
      by_cases hout : 0 < adjacency.outWeight edge.1
      · simp only [if_pos hout]
        ring
      · simp only [if_neg hout]
        ring
  have hsum := sum_incoming (adjacency.incoming v) fun u => if 0 < adjacency.outWeight u then
    damping * scores u / adjacency.outWeight u else 0
  rw [powerStep, hfold, hsum]
  rfl

/-- **Power iteration keeps the sum of the scores.** -/
lemma sum_powerStep (damping : ℚ) (hbalanced : adjacency.Balanced) (hnonneg : adjacency.Nonneg)
    (hteleport : Distribution teleport) (scores : Scores n) (hscores : ∑ i, scores i = 1) :
    ∑ v, powerStep adjacency damping teleport scores v = 1 := by
  have harrives : ∑ v, ∑ u, adjacency.flow u v * (if 0 < adjacency.outWeight u then
      damping * scores u / adjacency.outWeight u else 0) =
        damping * ∑ u, if adjacency.outWeight u = 0 then 0 else scores u := by
    rw [Finset.sum_comm, Finset.mul_sum]
    refine Finset.sum_congr rfl fun u _ => ?_
    rw [← Finset.sum_mul, hbalanced u]
    by_cases hout : 0 < adjacency.outWeight u
    · rw [if_pos hout, if_neg hout.ne']
      field_simp
    · rw [if_neg hout, if_pos (le_antisymm (not_lt.mp hout) (hnonneg u)), mul_zero, mul_zero]
  have hsplit : danglingSum adjacency scores +
      ∑ u, (if adjacency.outWeight u = 0 then 0 else scores u) = 1 := by
    rw [danglingSum, Finset.sum_filter, ← Finset.sum_add_distrib, ← hscores]
    refine Finset.sum_congr rfl fun u _ => ?_
    by_cases hout : adjacency.outWeight u = 0
    · rw [if_pos hout, if_pos hout, add_zero]
    · rw [if_neg hout, if_neg hout, zero_add]
  calc ∑ v, powerStep adjacency damping teleport scores v
      = (1 - damping) * ∑ v, teleport v + damping * danglingSum adjacency scores * ∑ v, teleport v +
          damping * ∑ u, (if adjacency.outWeight u = 0 then 0 else scores u) := by
        simp only [powerStep_apply, Finset.sum_add_distrib, ← Finset.mul_sum, harrives]
    _ = (1 - damping) + damping * (danglingSum adjacency scores +
          ∑ u, (if adjacency.outWeight u = 0 then 0 else scores u)) := by
        rw [hteleport.total]
        ring
    _ = 1 := by
        rw [hsplit]
        ring

lemma sum_powerIterate (hbalanced : adjacency.Balanced) (hnonneg : adjacency.Nonneg)
    (hteleport : Distribution teleport) (k : ℕ) (scores : Scores n) (hscores : ∑ i, scores i = 1) :
    ∑ v, powerIterate adjacency damping teleport k scores v = 1 := by
  induction k generalizing scores with
  | zero => exact hscores
  | succ k ih =>
    have hstep := sum_powerStep damping hbalanced hnonneg hteleport scores hscores
    rw [powerIterate]
    split_ifs
    · exact hstep
    · exact ih _ hstep

/-! ## Runs of forward push -/

open WorkLoop

variable {cancel : ℕ → Bool}

/-- The next pass pushes the mass of this node. -/
def PushState.Pushes (cancel : ℕ → Bool) (s : PushState n) (v : Fin n) : Prop :=
  ∃ queue, s.queue = v :: queue ∧ s.pushCount < n * 10 ∧
    ¬((s.pushCount + 1) % cancelPollInterval = 0 ∧ cancel (s.pushCount + 1) = true) ∧
    residualMin ≤ |s.residual v|

/-- What a pass that goes on does. -/
lemma pushStep_eq_inl (h : pushStep adjacency damping teleport cancel s = .inl t) :
    ∃ v queue, s.queue = v :: queue ∧ s.pushCount < n * 10 ∧ (t = s.pop v queue ∨
      s.Pushes cancel v ∧ t = (s.pop v queue).push adjacency damping teleport v) := by
  rw [pushStep] at h
  cases hqueue : s.queue with
  | nil =>
    rw [hqueue] at h
    cases h
  | cons v queue =>
    rw [hqueue] at h
    dsimp only [PushState.pop] at h
    split_ifs at h with hcount hcancel hsmall
    · refine ⟨v, queue, rfl, by omega, .inl ?_⟩
      exact (Sum.inl.inj h).symm
    · refine ⟨v, queue, rfl, by omega, .inr ⟨?_, (Sum.inl.inj h).symm⟩⟩
      exact ⟨queue, hqueue, by omega, hcancel, not_lt.mp hsmall⟩

/-- What a pass that ends the loop does. -/
lemma pushStep_eq_inr (h : pushStep adjacency damping teleport cancel s = .inr (some t)) :
    t.estimate = s.estimate ∧ t.residual = s.residual := by
  rw [pushStep] at h
  cases hqueue : s.queue with
  | nil =>
    rw [hqueue] at h
    obtain rfl := Option.some.inj (Sum.inr.inj h)
    exact ⟨rfl, rfl⟩
  | cons v queue =>
    rw [hqueue] at h
    dsimp only [PushState.pop] at h
    split_ifs at h with hcount hcancel
    · obtain rfl := Option.some.inj (Sum.inr.inj h)
      exact ⟨rfl, rfl⟩
    · cases h

lemma pushStep_of_pushes {v : Fin n} (h : s.Pushes cancel v) :
    ∃ queue, pushStep adjacency damping teleport cancel s =
      .inl ((s.pop v queue).push adjacency damping teleport v) := by
  obtain ⟨queue, hqueue, hcount, hcancel, hsmall⟩ := h
  have hcount' : ¬n * 10 < s.pushCount + 1 := by omega
  refine ⟨queue, ?_⟩
  rw [pushStep, hqueue]
  dsimp only [PushState.pop]
  rw [if_neg hcount', if_neg hcancel, if_neg (not_lt.mpr hsmall)]

/-- The loop ends: every pass counts. -/
lemma runLoop_pushStep (fuel : ℕ) (hfuel : n * 10 + 1 ≤ s.pushCount + fuel) (hpos : 0 < fuel) :
    ∃ r, runLoop (pushStep adjacency damping teleport cancel) fuel s = some r := by
  induction fuel generalizing s with
  | zero => exact absurd hpos (lt_irrefl 0)
  | succ fuel ih =>
    rw [runLoop]
    cases hstep : pushStep adjacency damping teleport cancel s with
    | inr r => exact ⟨r, rfl⟩
    | inl t =>
      obtain ⟨v, queue, -, hcount, ht⟩ := pushStep_eq_inl hstep
      have hnext : t.pushCount = s.pushCount + 1 := by
        obtain rfl | ⟨-, rfl⟩ := ht
        · rfl
        · exact PushState.push_pushCount _ v
      exact ih (by omega) (by omega)

/-- After every pass all mass is in estimates and residuals, and at the end the estimates fall short of
it by the residuals. -/
structure Conserves (adjacency : AdjacencyData n) (damping : ℚ) (teleport : Scores n)
    (cancel : ℕ → Bool) : Prop where
  passes : ∀ s, Reaches (pushStep adjacency damping teleport cancel) (.start teleport) s →
    ∑ i, s.estimate i + ∑ i, s.residual i = 1
  finish : ∀ s t, Reaches (pushStep adjacency damping teleport cancel) (.start teleport) s →
    pushStep adjacency damping teleport cancel s = .inr (some t) →
    1 - ∑ i, t.estimate i = ∑ i, t.residual i

/-- **Forward push conserves mass** if and only if no pass pushes a node that has a share in its own
mass: a node with an edge to itself, or a dangling seed.  Power iteration always does. -/
theorem forwardPush_conserves_iff (graph : InMemoryGraph) (weights : EdgeWeightConfig)
    (seedUids : List String) (config : PprConfig) (cancel : ℕ → Bool)
    (hdamping : 0 < config.damping ∧ config.damping < 1)
    (hseeds : (seedSet (graph.buildAdjacency weights) seedUids).Nonempty) :
    let adjacency := graph.buildAdjacency weights
    let teleport := personalization (seedSet adjacency seedUids)
    (Conserves adjacency config.damping teleport cancel ↔
      ∀ s v, Reaches (pushStep adjacency config.damping teleport cancel) (.start teleport) s →
        s.Pushes cancel v → selfShare adjacency teleport v = 0) ∧
    ((∀ kind, 0 ≤ weights.intentMultiplier kind) →
      ∀ k, ∑ i, powerIterate adjacency config.damping teleport k teleport i = 1) := by
  intro adjacency teleport
  have hbalanced : adjacency.Balanced := graph.balanced_buildAdjacency weights
  have hteleport : Distribution teleport := distribution_personalization hseeds
  have hpush : ∀ (s : PushState _) v queue,
      ((s.pop v queue).push adjacency config.damping teleport v).mass =
        s.mass - config.damping * s.residual v * selfShare adjacency teleport v :=
    fun s v queue => PushState.mass_push hbalanced hteleport (s.pop v queue) v
  refine ⟨⟨fun h s v hs hv => ?_, fun h => ?_⟩, fun hweights k => ?_⟩
  · -- a push that loses mass shows in the next state
    obtain ⟨queue, hstep⟩ := pushStep_of_pushes hv
    have hbefore := h.passes s hs
    have hafter := h.passes _ (hs.tail hstep)
    have hlost := hpush s v queue
    rw [PushState.mass, PushState.mass, hbefore, hafter] at hlost
    obtain ⟨-, -, -, -, hsmall⟩ := hv
    have hresidual : s.residual v ≠ 0 := by
      intro hzero
      rw [hzero, abs_zero, residualMin] at hsmall
      norm_num at hsmall
    have hproduct : config.damping * s.residual v * selfShare adjacency teleport v = 0 := by
      linarith
    exact (mul_eq_zero.mp hproduct).resolve_left (mul_ne_zero hdamping.1.ne' hresidual)
  · have hmass : ∀ s, Reaches (pushStep adjacency config.damping teleport cancel)
        (.start teleport) s → s.mass = 1 := by
      intro s hs
      have hboth : s.mass = 1 ∧ Reaches (pushStep adjacency config.damping teleport cancel)
          (.start teleport) s := by
        refine hs.invariant (P := fun s => s.mass = 1 ∧ Reaches
          (pushStep adjacency config.damping teleport cancel) (.start teleport) s) ⟨?_, .refl _⟩ fun a b ha hstep => ⟨?_, ha.2.tail hstep⟩
        · simp [PushState.mass, PushState.start, hteleport.total]
        · obtain ⟨v, queue, -, -, rfl | ⟨hpushes, rfl⟩⟩ := pushStep_eq_inl hstep
          · exact ha.1
          · rw [hpush, h a v ha.2 hpushes, ha.1, mul_zero, sub_zero]
      exact hboth.1
    refine ⟨hmass, fun s t hs hend => ?_⟩
    obtain ⟨hestimate, hresidual⟩ := pushStep_eq_inr hend
    have htotal := hmass s hs
    rw [PushState.mass] at htotal
    rw [hestimate, hresidual]
    linarith
  · exact sum_powerIterate hbalanced (graph.nonneg_buildAdjacency hweights) hteleport k teleport
      hteleport.total

lemma pushStep_ne_none : pushStep adjacency damping teleport (fun _ => false) s ≠ .inr none := by
  rw [pushStep]
  cases s.queue with
  | nil => simp
  | cons v queue =>
    dsimp only
    split_ifs with hcount hcancel
    · simp
    · exact absurd hcancel.2 not_false
    · simp
    · simp

/-- Without cancellation there are scores. -/
theorem forwardPushPpr_isSome (uids : Fin n → String) (adjacency : AdjacencyData n)
    (seedUids : List String) (config : PprConfig) :
    (forwardPushPprCancellable uids adjacency seedUids config fun _ => false).isSome = true := by
  rw [forwardPushPprCancellable, if_neg Bool.false_ne_true]
  dsimp only
  by_cases hseeds : n = 0 ∨ (seedSet adjacency seedUids).card = 0
  · rw [if_pos hseeds]
    rfl
  rw [if_neg hseeds]
  have hends : ∃ r, runLoop (pushStep adjacency config.damping
      (personalization (seedSet adjacency seedUids)) fun _ => false) (n * 10 + 2)
      (.start (personalization (seedSet adjacency seedUids))) = some r :=
    runLoop_pushStep _ (Nat.le_add_left_of_le (by omega)) (by omega)
  obtain ⟨r, hr⟩ := hends
  cases r with
  | none =>
    obtain ⟨t, -, hnone⟩ := runLoop_eq_some hr
    exact absurd hnone pushStep_ne_none
  | some t =>
    rw [hr]
    rfl

/-- A function that calls another one. -/
def oneCall : InMemoryGraph := ⟨["a", "b"], [(0, 1, 1, .calls)]⟩

def seedConfig : PprConfig := ⟨0.75, 20, 0, none, 0.05⟩

/-- Neither of the two has a share in its own mass. -/
theorem forwardPush_conserves_oneCall :
    let adjacency := oneCall.buildAdjacency .defaultConfig
    Conserves adjacency 0.75 (personalization (seedSet adjacency ["a"])) fun _ => false := by
  intro adjacency
  have hseeds : (seedSet adjacency ["a"]).Nonempty := by decide +kernel
  have hnone : ∀ v, selfShare adjacency (personalization (seedSet adjacency ["a"])) v = 0 := by
    decide +kernel
  exact (forwardPush_conserves_iff oneCall .defaultConfig ["a"] seedConfig (fun _ => false)
    (by norm_num [seedConfig]) hseeds).1.mpr fun s v _ _ => hnone v

/-- One function without calls. -/
def noCall : InMemoryGraph := ⟨["a"], []⟩

/-- A dangling seed hands its mass to itself, and loses it. -/
theorem forwardPush_loses_noCall :
    ¬∀ (graph : InMemoryGraph) (weights : EdgeWeightConfig) (seedUids : List String)
      (config : PprConfig) (cancel : ℕ → Bool), 0 < config.damping ∧ config.damping < 1 →
      (seedSet (graph.buildAdjacency weights) seedUids).Nonempty →
      Conserves (graph.buildAdjacency weights) config.damping
        (personalization (seedSet (graph.buildAdjacency weights) seedUids)) cancel := by
  intro h
  have hseeds : (seedSet (noCall.buildAdjacency .defaultConfig) ["a"]).Nonempty := by decide +kernel
  have hpasses := (h noCall .defaultConfig ["a"] seedConfig (fun _ => false)
    (by norm_num [seedConfig]) hseeds).passes
  let adjacency := noCall.buildAdjacency .defaultConfig
  let teleport := personalization (seedSet adjacency ["a"])
  let a : Fin noCall.uids.length := ⟨0, by decide⟩
  have hpushes : (PushState.start teleport).Pushes (fun _ => false) a :=
    ⟨[], by decide +kernel, by decide +kernel, by decide +kernel, by decide +kernel⟩
  obtain ⟨queue, hstep⟩ : ∃ queue, pushStep adjacency seedConfig.damping teleport (fun _ => false)
      (.start teleport) =
        .inl (((PushState.start teleport).pop a queue).push adjacency seedConfig.damping teleport a) :=
    pushStep_of_pushes hpushes
  have hlost := hpasses _ ((Reaches.refl (PushState.start teleport)).tail hstep)
  have hmass : (((PushState.start teleport).pop a queue).push adjacency seedConfig.damping teleport
      a).mass = (PushState.start teleport).mass -
        seedConfig.damping * (PushState.start teleport).residual a * selfShare adjacency teleport a :=
    PushState.mass_push (noCall.balanced_buildAdjacency _) (distribution_personalization hseeds) _ _
  have hquarter : (PushState.start teleport).mass -
      seedConfig.damping * (PushState.start teleport).residual a *
        selfShare adjacency teleport a = 0.25 := by
    decide +kernel
  rw [hquarter, PushState.mass, hlost] at hmass
  norm_num at hmass

end Algorithms
end NestWeaver
