import Mathlib.Data.Fintype.Card
import Mathlib.Order.Bounds.Defs
import NestWeaver.Framework.WorkLoop

/-!
# Breadth-first search

A node is entered once, with a depth, and queued.  A pass takes the first node off the queue and, unless
it is at the greatest depth, enters its successors one level deeper.

The nodes that are entered are those within the greatest depth of a seed, and the depth of a node is the
least number of steps that lead to it (`mem_search_iff`): while the search runs, no depth is more than one
above that of the first queued node (`Inv.near`).
-/

set_option linter.all false

namespace NestWeaver
namespace BreadthFirst

open WorkLoop

variable {κ : Type*}

/-! ## The search -/

/-- The entered nodes with their depths, and those that are still to be taken up. -/
structure Search (κ : Type*) where
  depths : List (κ × ℕ)
  queue : List (κ × ℕ)

/-- `k` steps lead from a seed to the node. -/
inductive Hops (next : κ → List κ) (seeds : List κ) : ℕ → κ → Prop
  | seed {v : κ} (hv : v ∈ seeds) : Hops next seeds 0 v
  | step {k : ℕ} {u v : κ} (hu : Hops next seeds k u) (hv : v ∈ next u) : Hops next seeds (k + 1) v

variable [DecidableEq κ]

def Search.entered (st : Search κ) (v : κ) : Prop := v ∈ st.depths.map Prod.fst

instance (st : Search κ) (v : κ) : Decidable (st.entered v) :=
  inferInstanceAs (Decidable (v ∈ st.depths.map Prod.fst))

def Search.enter (depth : ℕ) (st : Search κ) (v : κ) : Search κ :=
  if st.entered v then st else ⟨st.depths ++ [(v, depth)], st.queue ++ [(v, depth)]⟩

def Search.enterAll (st : Search κ) (depth : ℕ) (vs : List κ) : Search κ :=
  vs.foldl (Search.enter depth) st

def Search.init (seeds : List κ) : Search κ := Search.enterAll ⟨[], []⟩ 0 seeds

/-- One pass. -/
def expandStep (next : κ → List κ) (maxDepth : ℕ) (st : Search κ) :
    Search κ ⊕ List (κ × ℕ) :=
  match st.queue with
  | [] => .inr st.depths
  | (u, depth) :: rest =>
    let st : Search κ := { st with queue := rest }
    if maxDepth ≤ depth then .inl st else .inl (st.enterAll (depth + 1) (next u))

variable {next : κ → List κ} {seeds vs : List κ} {maxDepth depth k : ℕ} {st st' : Search κ} {u v : κ}

lemma expandStep_inr {found : List (κ × ℕ)} (h : expandStep next maxDepth st = .inr found) :
    st.queue = [] ∧ found = st.depths := by
  unfold expandStep at h
  split at h
  · rename_i hqueue
    exact ⟨hqueue, (Sum.inr.inj h).symm⟩
  · split_ifs at h

lemma expandStep_inl (h : expandStep next maxDepth st = .inl st') :
    ∃ u depth rest, st.queue = (u, depth) :: rest ∧
      st' = Search.enterAll { st with queue := rest } (depth + 1)
        (if maxDepth ≤ depth then [] else next u) := by
  unfold expandStep at h
  split at h
  · cases h
  · rename_i u depth rest hqueue
    refine ⟨u, depth, rest, hqueue, ?_⟩
    split_ifs at h ⊢
    · exact (Sum.inl.inj h).symm
    · exact (Sum.inl.inj h).symm

/-! ## Entering nodes -/

/-- What is entered is what was not yet there, and it is entered and queued in one order. -/
lemma exists_enterAll (st : Search κ) (depth : ℕ) (vs : List κ) :
    ∃ added : List (κ × ℕ), (st.enterAll depth vs).depths = st.depths ++ added ∧
      (st.enterAll depth vs).queue = st.queue ++ added ∧
      (∀ e ∈ added, e.1 ∈ vs ∧ e.2 = depth) ∧ (∀ v ∈ vs, (st.enterAll depth vs).entered v) ∧
      ((st.depths.map Prod.fst).Nodup → ((st.enterAll depth vs).depths.map Prod.fst).Nodup) := by
  induction vs generalizing st with
  | nil => exact ⟨[], by simp [Search.enterAll]⟩
  | cons v vs ih =>
    obtain ⟨added, hdepths, hqueue, hadded, hentered, hnodup⟩ := ih (st.enter depth v)
    have hcons : st.enterAll depth (v :: vs) = (st.enter depth v).enterAll depth vs := rfl
    rw [hcons]
    have hkept : (st.enter depth v).entered v → ((st.enter depth v).enterAll depth vs).entered v := by
      intro hv
      rw [Search.entered, hdepths, List.map_append]
      exact List.mem_append_left _ hv
    by_cases hv : st.entered v
    · have hsame : st.enter depth v = st := if_pos hv
      rw [hsame] at hdepths hqueue hentered hnodup hkept ⊢
      refine ⟨added, hdepths, hqueue, fun e he => ?_, fun w hw => ?_, hnodup⟩
      · exact ⟨List.mem_cons_of_mem _ (hadded e he).1, (hadded e he).2⟩
      · obtain rfl | hw := List.mem_cons.mp hw
        · exact hkept hv
        · exact hentered w hw
    · have hnew : st.enter depth v = ⟨st.depths ++ [(v, depth)], st.queue ++ [(v, depth)]⟩ := if_neg hv
      rw [hnew] at hdepths hqueue hentered hnodup hkept ⊢
      refine ⟨(v, depth) :: added, ?_, ?_, fun e he => ?_, fun w hw => ?_, fun hold => hnodup ?_⟩
      · rw [hdepths, List.append_assoc, List.singleton_append]
      · rw [hqueue, List.append_assoc, List.singleton_append]
      · obtain rfl | he := List.mem_cons.mp he
        · exact ⟨List.mem_cons_self, rfl⟩
        · exact ⟨List.mem_cons_of_mem _ (hadded e he).1, (hadded e he).2⟩
      · obtain rfl | hw := List.mem_cons.mp hw
        · exact hkept (by simp [Search.entered])
        · exact hentered w hw
      · rw [List.map_append, List.map_singleton, List.nodup_append]
        refine ⟨hold, List.nodup_singleton v, ?_⟩
        rintro w hw _ hw' rfl
        obtain rfl := List.mem_singleton.mp hw'
        exact hv hw

/-! ## The search ends -/

section Ends

variable [Fintype κ]

/-- The nodes that are not entered, and those that are queued. -/
def credit (st : Search κ) : ℕ := (Finset.univ.filter fun v => ¬st.entered v).card + st.queue.length

lemma credit_enter (st : Search κ) (depth : ℕ) (v : κ) : credit (st.enter depth v) ≤ credit st := by
  by_cases hv : st.entered v
  · rw [Search.enter, if_pos hv]
  · have hlt : (Finset.univ.filter fun w => ¬(st.enter depth v).entered w).card <
        (Finset.univ.filter fun w => ¬st.entered w).card := by
      refine Finset.card_lt_card (Finset.ssubset_iff_of_subset ?_ |>.mpr ⟨v, ?_, ?_⟩)
      · intro w hw
        rw [Finset.mem_filter] at hw ⊢
        refine ⟨hw.1, fun hold => hw.2 ?_⟩
        rw [Search.enter, if_neg hv, Search.entered, List.map_append]
        exact List.mem_append_left _ hold
      · simp [hv]
      · have hentered : (st.enter depth v).entered v := by
          rw [Search.enter, if_neg hv]
          simp [Search.entered]
        simp [hentered]
    have hqueue : (st.enter depth v).queue.length = st.queue.length + 1 := by
      rw [Search.enter, if_neg hv, List.length_append, List.length_singleton]
    unfold credit
    omega

lemma credit_enterAll (st : Search κ) (depth : ℕ) (vs : List κ) :
    credit (st.enterAll depth vs) ≤ credit st := by
  induction vs generalizing st with
  | nil => exact le_rfl
  | cons v vs ih => exact (ih _).trans (credit_enter st depth v)

/-- A node is taken off the queue, and a node that is queued had not been entered. -/
lemma expandStep_decreases (next : κ → List κ) (maxDepth : ℕ) (st st' : Search κ)
    (h : expandStep next maxDepth st = .inl st') : credit st' < credit st := by
  obtain ⟨u, depth, rest, hqueue, rfl⟩ := expandStep_inl h
  refine (credit_enterAll _ _ _).trans_lt ?_
  have hlength : st.queue.length = rest.length + 1 := by rw [hqueue]; rfl
  have hsame : credit { st with queue := rest } + 1 = credit st := by
    rw [credit, credit, hlength]
    rfl
  omega

/-- The entered nodes when the queue is empty. -/
def search (next : κ → List κ) (maxDepth : ℕ) (seeds : List κ) : List (κ × ℕ) :=
  loop (measure credit).wf (expandStep_decreases next maxDepth) (.init seeds)

end Ends

/-! ## What the search computes -/

/-- The invariant of the search. -/
structure Inv (next : κ → List κ) (seeds : List κ) (maxDepth : ℕ) (st : Search κ) : Prop where
  nodup : (st.depths.map Prod.fst).Nodup
  sound : ∀ v d, (v, d) ∈ st.depths → d ≤ maxDepth ∧ Hops next seeds d v
  seed : ∀ v ∈ seeds, (v, 0) ∈ st.depths
  queued : ∀ e ∈ st.queue, e ∈ st.depths
  sorted : st.queue.Pairwise (·.2 ≤ ·.2)
  /-- The queue holds two levels at most. -/
  near : ∀ e ∈ st.depths, ∀ q ∈ st.queue, e.2 ≤ q.2 + 1
  /-- The successors of a node that has been taken up. -/
  settled : ∀ u d, (u, d) ∈ st.depths → (u, d) ∉ st.queue → d < maxDepth →
    ∀ v ∈ next u, ∃ d' ≤ d + 1, (v, d') ∈ st.depths

lemma inv_init (next : κ → List κ) (seeds : List κ) (maxDepth : ℕ) :
    Inv next seeds maxDepth (.init seeds) := by
  obtain ⟨added, hdepths, hqueue, hadded, hentered, hnodup⟩ := exists_enterAll (⟨[], []⟩ : Search κ) 0 seeds
  rw [List.nil_append] at hdepths hqueue
  have hzero : ∀ e ∈ (Search.init seeds).depths, e.1 ∈ seeds ∧ e.2 = 0 := by
    intro e he
    rw [Search.init, hdepths] at he
    exact hadded e he
  have hsame : (Search.init seeds).queue = (Search.init seeds).depths := hqueue.trans hdepths.symm
  refine ⟨hnodup List.nodup_nil, fun v d hv => ?_, fun v hv => ?_, fun e he => hsame ▸ he, ?_, ?_, ?_⟩
  · obtain ⟨hseed, rfl⟩ := hzero _ hv
    exact ⟨Nat.zero_le _, .seed hseed⟩
  · obtain ⟨e, he, rfl⟩ := List.mem_map.mp (hentered v hv)
    have hd := (hzero e he).2
    rw [← hd]
    exact he
  · rw [hsame]
    exact List.pairwise_of_forall_mem_list fun e he e' he' => ((hzero e he).2.trans_le (Nat.zero_le _))
  · intro e he q _
    rw [(hzero e he).2]
    exact Nat.zero_le _
  · intro u d hu hnot
    exact absurd (hsame ▸ hu) hnot

/-- **A pass keeps the invariant.** -/
lemma Inv.step (h : Inv next seeds maxDepth st) (hstep : expandStep next maxDepth st = .inl st') :
    Inv next seeds maxDepth st' := by
  obtain ⟨u, depth, rest, hqueue, rfl⟩ := expandStep_inl hstep
  set vs := if maxDepth ≤ depth then [] else next u with hvs
  obtain ⟨added, hdepths', hqueue', hadded, hentered, hnodup⟩ :=
    exists_enterAll { st with queue := rest } (depth + 1) vs
  have hhead : (u, depth) ∈ st.queue := hqueue ▸ List.mem_cons_self
  have hrest : ∀ q ∈ rest, q ∈ st.queue := fun q hq => hqueue ▸ List.mem_cons_of_mem _ hq
  have hsorted := h.sorted
  rw [hqueue, List.pairwise_cons] at hsorted
  have hnew : ∀ e ∈ added, depth < maxDepth ∧ e.1 ∈ next u ∧ e.2 = depth + 1 := by
    intro e he
    obtain ⟨hmem, heq⟩ := hadded e he
    rw [hvs] at hmem
    split_ifs at hmem with hle
    · cases hmem
    · exact ⟨not_le.mp hle, hmem, heq⟩
  refine ⟨hnodup h.nodup, fun v d hv => ?_, fun v hv => ?_, ?_, ?_, ?_, ?_⟩
  · rw [hdepths'] at hv
    obtain hv | hv := List.mem_append.mp hv
    · exact h.sound v d hv
    · obtain ⟨hlt, hmem, heq⟩ := hnew _ hv
      obtain rfl : d = depth + 1 := heq
      exact ⟨hlt, .step (h.sound u depth (h.queued _ hhead)).2 hmem⟩
  · rw [hdepths']
    exact List.mem_append_left _ (h.seed v hv)
  · rw [hdepths', hqueue']
    intro q hq
    obtain hq | hq := List.mem_append.mp hq
    · exact List.mem_append_left _ (h.queued q (hrest q hq))
    · exact List.mem_append_right _ hq
  · rw [hqueue', List.pairwise_append]
    refine ⟨hsorted.2, ?_, fun q hq e he => ?_⟩
    · refine List.pairwise_of_forall_mem_list fun e he e' he' => ?_
      rw [(hnew e he).2.2, (hnew e' he').2.2]
    · rw [(hnew e he).2.2]
      exact h.near q (h.queued q (hrest q hq)) _ hhead
  · intro e he q hq
    rw [hdepths'] at he
    rw [hqueue'] at hq
    have hle : e.2 ≤ depth + 1 := by
      obtain he | he := List.mem_append.mp he
      · exact h.near e he _ hhead
      · exact (hnew e he).2.2.le
    obtain hq | hq := List.mem_append.mp hq
    · have hfirst : depth ≤ q.2 := hsorted.1 q hq
      omega
    · rw [(hnew q hq).2.2]
      omega
  · intro w d hw hnot hlt v hv
    rw [hqueue', List.mem_append, not_or] at hnot
    rw [hdepths'] at hw ⊢
    have hw := (List.mem_append.mp hw).resolve_right hnot.2
    by_cases hsame : (w, d) = (u, depth)
    · -- the node that was taken up: its successors are entered, and none of them too deep
      obtain ⟨rfl, rfl⟩ := Prod.mk.inj hsame
      have hv' : v ∈ vs := by rwa [hvs, if_neg (not_le.mpr hlt)]
      obtain ⟨⟨v', d'⟩, he, rfl⟩ := List.mem_map.mp (hentered v hv')
      rw [hdepths'] at he
      refine ⟨d', ?_, he⟩
      obtain he | he := List.mem_append.mp he
      · exact h.near _ he _ hhead
      · exact (hnew _ he).2.2.le
    · have hnot' : (w, d) ∉ st.queue := by
        rw [hqueue, List.mem_cons, not_or]
        exact ⟨hsame, hnot.1⟩
      obtain ⟨d', hle, hd'⟩ := h.settled w d hw hnot' hlt v hv
      exact ⟨d', hle, List.mem_append_left _ hd'⟩

omit [DecidableEq κ] in
/-- When the queue is empty, what is within the greatest depth has been entered. -/
lemma Inv.exists_of_hops (h : Inv next seeds maxDepth st) (hqueue : st.queue = [])
    (hhops : Hops next seeds k v) (hk : k ≤ maxDepth) : ∃ d ≤ k, (v, d) ∈ st.depths := by
  induction hhops with
  | seed hv => exact ⟨0, le_rfl, h.seed _ hv⟩
  | @step k u v _ hv ih =>
    obtain ⟨d, hd, hu⟩ := ih (by omega)
    obtain ⟨d', hd', hv'⟩ := h.settled u d hu (by simp [hqueue]) (by omega) v hv
    exact ⟨d', by omega, hv'⟩

section

variable [Fintype κ]

lemma exists_inv_search (next : κ → List κ) (maxDepth : ℕ) (seeds : List κ) :
    ∃ st, Inv next seeds maxDepth st ∧ st.queue = [] ∧ search next maxDepth seeds = st.depths := by
  obtain ⟨fuel, hrun⟩ := runLoop_loop (measure credit).wf (expandStep_decreases next maxDepth) (.init seeds)
  obtain ⟨st, hreach, hstep⟩ := runLoop_eq_some hrun
  obtain ⟨hqueue, hfound⟩ := expandStep_inr hstep
  exact ⟨st, hreach.invariant (inv_init next seeds maxDepth) fun _ _ hinv => hinv.step, hqueue, hfound⟩

lemma nodup_search : ((search next maxDepth seeds).map Prod.fst).Nodup := by
  obtain ⟨st, hinv, -, hfound⟩ := exists_inv_search next maxDepth seeds
  rw [hfound]
  exact hinv.nodup

/-- **Shortest distances.**  A node is entered exactly if it is within the greatest depth, and its depth is
the least number of steps. -/
theorem mem_search_iff {d : ℕ} :
    (v, d) ∈ search next maxDepth seeds ↔ d ≤ maxDepth ∧ IsLeast {k | Hops next seeds k v} d := by
  obtain ⟨st, hinv, hqueue, hfound⟩ := exists_inv_search next maxDepth seeds
  rw [hfound]
  have hunique : ∀ d d', (v, d) ∈ st.depths → (v, d') ∈ st.depths → d = d' := by
    intro d d' hd hd'
    exact (Prod.mk.inj (List.inj_on_of_nodup_map hinv.nodup hd hd' rfl)).2
  constructor
  · intro hv
    obtain ⟨hle, hhops⟩ := hinv.sound v d hv
    refine ⟨hle, hhops, fun k hk => ?_⟩
    by_contra hlt
    obtain ⟨d', hd', hv'⟩ := hinv.exists_of_hops hqueue hk (by omega)
    have heq := hunique d d' hv hv'
    omega
  · rintro ⟨hle, hhops, hleast⟩
    obtain ⟨d', hd', hv'⟩ := hinv.exists_of_hops hqueue hhops hle
    have hge := hleast (hinv.sound v d' hv').2
    obtain rfl : d' = d := by omega
    exact hv'

end

end BreadthFirst
end NestWeaver
