import Mathlib.Algebra.BigOperators.Group.Finset.Basic
import Mathlib.Algebra.Order.BigOperators.Group.Finset
import Mathlib.Data.List.AList
import NestWeaver.Framework.WorkLoop

/-!
# Widest paths

A worklist search that gives every node the largest width of a path from a seed, where the width of
a path is the least width of its arcs.  A node is queued again whenever its width rises, together
with the new width.  The search ends on a finite network (`raiseStep_decreases`), a node's width is
at least `x` exactly when a path of width `x` leads to it (`le_width_widest_iff`), and what holds on
a part of the network that no arc enters depends on that part alone (`lookup_widest_congr`).
-/

set_option linter.all false

namespace NestWeaver
namespace WidestPath

open WorkLoop

variable {κ α : Type*} [DecidableEq κ] [LinearOrder α] [Zero α]

/-! ## The search -/

/-- A network with finitely many arcs. -/
structure Network (κ α : Type*) where
  /-- The arcs out of a node, as targets with widths. -/
  adjacent : κ → List (κ × α)
  targets : Finset κ
  widths : Finset α
  mem_targets : ∀ u, ∀ e ∈ adjacent u, e.1 ∈ targets
  mem_widths : ∀ u, ∀ e ∈ adjacent u, e.2 ∈ widths

/-- The widths found so far and the worklist. -/
structure Search (κ α : Type*) where
  best : AList fun _ : κ => α
  queue : List (κ × α)

/-- The width of a node, `0` while none is known. -/
def widthIn (best : AList fun _ : κ => α) (v : κ) : α := (best.lookup v).getD 0

def Search.width (st : Search κ α) (v : κ) : α := widthIn st.best v

/-- A node reached with width `x`: it is entered, and queued when `x` is an improvement. -/
def Search.raise (st : Search κ α) (v : κ) (x : α) : Search κ α :=
  if st.width v < x then ⟨st.best.insert v x, st.queue ++ [(v, x)]⟩
  else ⟨st.best.insert v (st.width v), st.queue⟩

/-- The arcs out of a node that was taken up with width `x`. -/
def Search.relax (st : Search κ α) (x : α) (es : List (κ × α)) : Search κ α :=
  es.foldl (fun st e => st.raise e.1 (min x e.2)) st

def Search.init (seeds : List κ) (top : α) : Search κ α :=
  seeds.foldl (fun st v => st.raise v top) ⟨∅, []⟩

/-- One pass. -/
def raiseStep (n : Network κ α) (st : Search κ α) : Search κ α ⊕ AList fun _ : κ => α :=
  match st.queue with
  | [] => .inr st.best
  | (u, x) :: rest => .inl (({ st with queue := rest } : Search κ α).relax x (n.adjacent u))

variable {n n' : Network κ α} {st st' : Search κ α} {seeds seeds' : List κ} {top x y : α} {u v : κ}
  {es : List (κ × α)}

lemma raiseStep_inl (h : raiseStep n st = .inl st') :
    ∃ u x rest, st.queue = (u, x) :: rest ∧
      st' = ({ st with queue := rest } : Search κ α).relax x (n.adjacent u) := by
  unfold raiseStep at h
  split at h
  · cases h
  · rename_i u x rest hqueue
    exact ⟨u, x, rest, hqueue, (Sum.inl.inj h).symm⟩

lemma raiseStep_inr {best : AList fun _ : κ => α} (h : raiseStep n st = .inr best) :
    st.queue = [] ∧ best = st.best := by
  unfold raiseStep at h
  split at h
  · rename_i hqueue
    exact ⟨hqueue, (Sum.inr.inj h).symm⟩
  · cases h

/-! ## Raising a width -/

lemma width_raise : (st.raise v x).width u = if u = v then max (st.width v) x else st.width u := by
  unfold Search.raise
  split_ifs with hlt huv huv
  · rw [huv, Search.width, widthIn, AList.lookup_insert, Option.getD_some, max_eq_right hlt.le]
  · rw [Search.width, widthIn, AList.lookup_insert_ne huv]
    rfl
  · rw [huv, Search.width, widthIn, AList.lookup_insert, Option.getD_some,
      max_eq_left (not_lt.mp hlt)]
  · rw [Search.width, widthIn, AList.lookup_insert_ne huv]
    rfl

lemma mem_raise : u ∈ (st.raise v x).best ↔ u = v ∨ u ∈ st.best := by
  unfold Search.raise
  split_ifs <;> exact AList.mem_insert _

lemma queue_raise :
    (st.raise v x).queue = if st.width v < x then st.queue ++ [(v, x)] else st.queue := by
  unfold Search.raise
  split_ifs <;> rfl

lemma le_width_raise : st.width u ≤ (st.raise v x).width u := by
  rw [width_raise]
  split_ifs with huv
  · exact huv ▸ le_max_left _ _
  · exact le_rfl

/-! ## Relaxing the arcs of a node -/

lemma relax_cons (st : Search κ α) (e : κ × α) :
    st.relax x (e :: es) = (st.raise e.1 (min x e.2)).relax x es := rfl

lemma le_width_relax : st.width u ≤ (st.relax x es).width u := by
  induction es generalizing st with
  | nil => exact le_rfl
  | cons e es ih => exact le_width_raise.trans ih

lemma le_width_relax_of_mem (st : Search κ α) (x : α) {e : κ × α} (he : e ∈ es) :
    min x e.2 ≤ (st.relax x es).width e.1 := by
  induction es generalizing st with
  | nil => cases he
  | cons e' es ih =>
    rw [relax_cons]
    rcases List.mem_cons.mp he with rfl | he
    · refine le_trans ?_ le_width_relax
      rw [width_raise, if_pos rfl]
      exact le_max_right _ _
    · exact ih _ he

lemma mem_relax : u ∈ (st.relax x es).best ↔ u ∈ st.best ∨ ∃ e ∈ es, e.1 = u := by
  induction es generalizing st with
  | nil => simp [Search.relax]
  | cons e es ih =>
    rw [relax_cons, ih, mem_raise, List.exists_mem_cons_iff, eq_comm, or_assoc, or_left_comm]

lemma queue_subset_relax : st.queue ⊆ (st.relax x es).queue := by
  induction es generalizing st with
  | nil => exact List.Subset.refl _
  | cons e es ih =>
    refine List.Subset.trans ?_ ih
    rw [queue_raise]
    split_ifs
    · exact List.subset_append_left _ _
    · exact List.Subset.refl _

/-- A new entry is an arc's, with a width above the node's at the start and up to its last one. -/
lemma mem_queue_relax {e : κ × α} (he : e ∈ (st.relax x es).queue) :
    e ∈ st.queue ∨ ((∃ e' ∈ es, e = (e'.1, min x e'.2)) ∧ st.width e.1 < e.2 ∧
      e.2 ≤ (st.relax x es).width e.1) := by
  induction es generalizing st with
  | nil => exact .inl he
  | cons e' es ih =>
    rw [relax_cons] at he ⊢
    obtain hold | ⟨⟨e'', he'', heq⟩, hlt, hle⟩ := ih he
    · rw [queue_raise] at hold
      split_ifs at hold with hlt
      · rcases List.mem_append.mp hold with hold | hnew
        · exact .inl hold
        · obtain rfl := List.mem_singleton.mp hnew
          refine .inr ⟨⟨e', List.mem_cons_self, rfl⟩, hlt, le_trans ?_ le_width_relax⟩
          rw [width_raise, if_pos rfl]
          exact le_max_right _ _
      · exact .inl hold
    · exact .inr ⟨⟨e'', List.mem_cons_of_mem _ he'', heq⟩, le_width_raise.trans_lt hlt, hle⟩

/-- A width that rose is an arc's, and the node is queued with it. -/
lemma width_relax_cases (st : Search κ α) (x : α) (es : List (κ × α)) (u : κ) :
    (st.relax x es).width u = st.width u ∨
      (∃ e ∈ es, e.1 = u ∧ (st.relax x es).width u = min x e.2) ∧
        (u, (st.relax x es).width u) ∈ (st.relax x es).queue := by
  induction es generalizing st with
  | nil => exact .inl rfl
  | cons e es ih =>
    rw [relax_cons]
    obtain hsame | ⟨⟨e', he', huid, hwidth⟩, hqueue⟩ := ih (st.raise e.1 (min x e.2))
    · by_cases hrise : u = e.1 ∧ st.width e.1 < min x e.2
      · obtain ⟨rfl, hlt⟩ := hrise
        have hwidth : (st.raise e.1 (min x e.2)).width e.1 = min x e.2 := by
          rw [width_raise, if_pos rfl, max_eq_right hlt.le]
        refine .inr ⟨⟨e, List.mem_cons_self, rfl, hsame.trans hwidth⟩, ?_⟩
        rw [hsame, hwidth]
        refine queue_subset_relax ?_
        rw [queue_raise, if_pos hlt]
        exact List.mem_append_right _ (List.mem_singleton_self _)
      · refine .inl (hsame.trans ?_)
        rw [width_raise]
        split_ifs with huv
        · rw [huv, max_eq_left (not_lt.mp fun hlt => hrise ⟨huv, hlt⟩)]
        · rfl
    · exact .inr ⟨⟨e', List.mem_cons_of_mem _ he', huid, hwidth⟩, hqueue⟩

lemma init_eq_relax (seeds : List κ) (top : α) :
    Search.init seeds top =
      (⟨∅, []⟩ : Search κ α).relax top (seeds.map fun v => (v, top)) := by
  rw [Search.init, Search.relax, List.foldl_map]
  simp only [min_self]

/-! ## The search ends -/

/-- How often the widths of the targets can still rise to a value in `V`. -/
def Network.room (n : Network κ α) (V : Finset α) (st : Search κ α) : ℕ :=
  ∑ v ∈ n.targets, (V.filter fun x => st.width v < x).card

lemma room_raise {V : Finset α} (hv : v ∈ n.targets) (hx : x ∈ V) :
    n.room V (st.raise v x) + (st.raise v x).queue.length ≤ n.room V st + st.queue.length := by
  by_cases hlt : st.width v < x
  · -- an entry is queued, and the node's width can no longer rise to `x`
    have hless : n.room V (st.raise v x) < n.room V st := by
      refine Finset.sum_lt_sum (fun w _ => Finset.card_le_card ?_) ⟨v, hv, Finset.card_lt_card ?_⟩
      · exact Finset.monotone_filter_right V fun y _ hy => le_width_raise.trans_lt hy
      · rw [Finset.ssubset_iff_of_subset
          (Finset.monotone_filter_right V fun y _ hy => le_width_raise.trans_lt hy)]
        refine ⟨x, Finset.mem_filter.mpr ⟨hx, hlt⟩, fun h => ?_⟩
        have habove := (Finset.mem_filter.mp h).2
        rw [width_raise, if_pos rfl] at habove
        exact absurd (le_max_right _ _) habove.not_ge
    have hqueue : (st.raise v x).queue.length = st.queue.length + 1 := by
      rw [queue_raise, if_pos hlt, List.length_append, List.length_singleton]
    omega
  · have hroom : n.room V (st.raise v x) ≤ n.room V st :=
      Finset.sum_le_sum fun w _ => Finset.card_le_card
        (Finset.monotone_filter_right V fun y _ hy => le_width_raise.trans_lt hy)
    rw [queue_raise, if_neg hlt]
    omega

lemma room_relax (st : Search κ α) {V : Finset α} (hes : ∀ e ∈ es, e.1 ∈ n.targets ∧ min x e.2 ∈ V) :
    n.room V (st.relax x es) + (st.relax x es).queue.length ≤ n.room V st + st.queue.length := by
  induction es generalizing st with
  | nil => exact le_rfl
  | cons e es ih =>
    obtain ⟨htarget, hwidth⟩ := hes e List.mem_cons_self
    exact (ih _ fun e' he' => hes e' (List.mem_cons_of_mem _ he')).trans (room_raise htarget hwidth)

/-- The widths a search can give. -/
def Network.reach (n : Network κ α) (st : Search κ α) : Finset α :=
  n.widths ∪ (st.queue.map Prod.snd).toFinset

/-- The rises left, and the entries of the worklist. -/
def Network.credit (n : Network κ α) (st : Search κ α) : ℕ :=
  n.room (n.reach st) st + st.queue.length

/-- A pass takes an entry off the queue, and every entry it adds uses up a rise. -/
lemma raiseStep_decreases (n : Network κ α) (st st' : Search κ α) (h : raiseStep n st = .inl st') :
    n.credit st' < n.credit st := by
  obtain ⟨u, x, rest, hqueue, rfl⟩ := raiseStep_inl h
  have hx : x ∈ n.reach st := by
    refine Finset.mem_union_right _ (List.mem_toFinset.mpr ?_)
    rw [hqueue]
    exact List.mem_cons_self
  have hmin : ∀ e ∈ n.adjacent u, min x e.2 ∈ n.reach st := by
    intro e he
    rcases min_choice x e.2 with hmin | hmin <;> rw [hmin]
    · exact hx
    · exact Finset.mem_union_left _ (n.mem_widths u e he)
  set st₀ : Search κ α := { st with queue := rest } with hst₀
  have hreach : n.reach (st₀.relax x (n.adjacent u)) ⊆ n.reach st := by
    intro y hy
    rcases Finset.mem_union.mp hy with hy | hy
    · exact Finset.mem_union_left _ hy
    obtain ⟨e, he, rfl⟩ := List.mem_map.mp (List.mem_toFinset.mp hy)
    obtain hold | ⟨⟨e', he', rfl⟩, -⟩ := mem_queue_relax he
    · refine Finset.mem_union_right _ (List.mem_toFinset.mpr (List.mem_map_of_mem ?_))
      rw [hqueue]
      exact List.mem_cons_of_mem _ hold
    · exact hmin e' he'
  have hroom : n.room (n.reach (st₀.relax x (n.adjacent u))) (st₀.relax x (n.adjacent u)) ≤
      n.room (n.reach st) (st₀.relax x (n.adjacent u)) :=
    Finset.sum_le_sum fun v _ => Finset.card_le_card (Finset.filter_subset_filter _ hreach)
  have hrelax := room_relax st₀ fun e he => ⟨n.mem_targets u e he, hmin e he⟩
  have hsame : n.room (n.reach st) st₀ = n.room (n.reach st) st := rfl
  have hlength : st.queue.length = st₀.queue.length + 1 := by rw [hqueue]; rfl
  unfold Network.credit
  omega

/-- The widths at the end of the search. -/
def Network.widest (n : Network κ α) (seeds : List κ) (top : α) : AList fun _ : κ => α :=
  loop (measure n.credit).wf (raiseStep_decreases n) (.init seeds top)

lemma widest_eq_of_run {fuel : ℕ} {best : AList fun _ : κ => α}
    (h : runLoop (raiseStep n) fuel (.init seeds top) = some best) : n.widest seeds top = best :=
  loop_eq_of_runLoop (measure n.credit).wf (raiseStep_decreases n) h

/-! ## What the search computes -/

/-- A path from a seed to a node, all of whose arcs have at least width `x`. -/
inductive Wide (n : Network κ α) (seeds : List κ) (top x : α) : κ → Prop
  | seed {v : κ} (hv : v ∈ seeds) (hx : x ≤ top) : Wide n seeds top x v
  | arc {u : κ} {e : κ × α} (hu : Wide n seeds top x u) (he : e ∈ n.adjacent u) (hx : x ≤ e.2) :
    Wide n seeds top x e.1

/-- The invariant of the search. -/
structure Inv (n : Network κ α) (seeds : List κ) (top : α) (st : Search κ α) : Prop where
  nonneg : ∀ v, 0 ≤ st.width v
  sound : ∀ v x, 0 < x → x ≤ st.width v → Wide n seeds top x v
  entered : ∀ v ∈ st.best, v ∈ seeds ∨ ∃ u, 0 < st.width u ∧ ∃ e ∈ n.adjacent u, e.1 = v
  seed : ∀ v ∈ seeds, v ∈ st.best ∧ top ≤ st.width v
  queued : ∀ e ∈ st.queue, 0 < e.2 ∧ e.2 ≤ st.width e.1
  /-- A node's arcs have been relaxed at its width, or it is queued with it. -/
  settled : ∀ u, 0 < st.width u → (u, st.width u) ∈ st.queue ∨
    ∀ e ∈ n.adjacent u, e.1 ∈ st.best ∧ min (st.width u) e.2 ≤ st.width e.1

lemma inv_init (n : Network κ α) (seeds : List κ) (top : α) : Inv n seeds top (.init seeds top) := by
  have hempty : ∀ v, (⟨∅, []⟩ : Search κ α).width v = 0 := by
    intro v
    rw [Search.width, widthIn, AList.lookup_empty, Option.getD_none]
  rw [init_eq_relax]
  set st : Search κ α := (⟨∅, []⟩ : Search κ α).relax top (seeds.map fun v => (v, top)) with hst
  -- a width is the initial one, or that of a queued seed
  have hcases : ∀ v, st.width v = 0 ∨ (v ∈ seeds ∧ st.width v = top ∧ (v, st.width v) ∈ st.queue) := by
    intro v
    obtain hsame | ⟨⟨e, he, rfl, hwidth⟩, hqueue⟩ := width_relax_cases ⟨∅, []⟩ top
      (seeds.map fun v => (v, top)) v
    · exact .inl (hsame.trans (hempty v))
    · obtain ⟨w, hw, rfl⟩ := List.mem_map.mp he
      exact .inr ⟨hw, hwidth.trans (min_self _), hqueue⟩
  have hnonneg : ∀ v, 0 ≤ st.width v := fun v => (hempty v).ge.trans le_width_relax
  refine ⟨hnonneg, ?_, ?_, ?_, ?_, ?_⟩
  · intro v x hpos hx
    obtain hzero | ⟨hv, hwidth, -⟩ := hcases v
    · exact absurd hx (hzero ▸ hpos.not_ge)
    · exact .seed hv (hwidth ▸ hx)
  · intro v hv
    obtain hv | ⟨e, he, rfl⟩ := mem_relax.mp hv
    · exact absurd hv (AList.notMem_empty v)
    · obtain ⟨w, hw, rfl⟩ := List.mem_map.mp he
      exact .inl hw
  · intro v hv
    have he : (v, top) ∈ seeds.map fun v => (v, top) := List.mem_map_of_mem hv
    refine ⟨mem_relax.mpr (.inr ⟨_, he, rfl⟩), ?_⟩
    simpa using le_width_relax_of_mem ⟨∅, []⟩ top he
  · intro e he
    obtain he | ⟨-, hlt, hle⟩ := mem_queue_relax he
    · cases he
    · exact ⟨hempty e.1 ▸ hlt, hle⟩
  · intro u hu
    obtain hzero | ⟨-, -, hqueue⟩ := hcases u
    · exact absurd hzero hu.ne'
    · exact .inl hqueue

/-- A pass keeps the invariant. -/
lemma Inv.step (h : Inv n seeds top st) (hstep : raiseStep n st = .inl st') :
    Inv n seeds top st' := by
  obtain ⟨u, x, rest, hqueue, rfl⟩ := raiseStep_inl hstep
  obtain ⟨hpos, hle⟩ := h.queued (u, x) (hqueue ▸ List.mem_cons_self)
  set st₀ : Search κ α := { st with queue := rest } with hst₀
  have hmono : ∀ v, st₀.width v ≤ (st₀.relax x (n.adjacent u)).width v := fun _ => le_width_relax
  refine ⟨fun v => (h.nonneg v).trans (hmono v), ?_, ?_, ?_, ?_, ?_⟩
  · intro v y hy hyv
    obtain hsame | ⟨⟨e, he, rfl, hwidth⟩, -⟩ := width_relax_cases st₀ x (n.adjacent u) v
    · exact h.sound v y hy (hyv.trans hsame.le)
    · -- the path to `u`, and the arc
      have hymin : y ≤ min x e.2 := hyv.trans hwidth.le
      exact .arc (h.sound u y hy ((hymin.trans (min_le_left _ _)).trans hle)) he
        (hymin.trans (min_le_right _ _))
  · intro v hv
    obtain hv | ⟨e, he, rfl⟩ := mem_relax.mp hv
    · obtain hv | ⟨w, hw, e, he, rfl⟩ := h.entered v hv
      · exact .inl hv
      · exact .inr ⟨w, hw.trans_le (hmono w), e, he, rfl⟩
    · exact .inr ⟨u, (hpos.trans_le hle).trans_le (hmono u), e, he, rfl⟩
  · intro v hv
    obtain ⟨hmem, htop⟩ := h.seed v hv
    exact ⟨mem_relax.mpr (.inl hmem), htop.trans (hmono v)⟩
  · intro e he
    obtain he | ⟨-, hlt, hle'⟩ := mem_queue_relax he
    · obtain ⟨hpos', hle'⟩ := h.queued e (hqueue ▸ List.mem_cons_of_mem _ he)
      exact ⟨hpos', hle'.trans (hmono _)⟩
    · exact ⟨(h.nonneg e.1).trans_lt hlt, hle'⟩
  · intro v hv
    obtain hsame | ⟨-, hqueued⟩ := width_relax_cases st₀ x (n.adjacent u) v
    · have hsame' : (st₀.relax x (n.adjacent u)).width v = st.width v := hsame
      rw [hsame'] at hv ⊢
      obtain hqueued | hrelaxed := h.settled v hv
      · rw [hqueue] at hqueued
        rcases List.mem_cons.mp hqueued with heq | hrest
        · -- the entry just taken up
          obtain ⟨rfl, rfl⟩ := Prod.mk.inj heq
          exact .inr fun e he => ⟨mem_relax.mpr (.inr ⟨e, he, rfl⟩), le_width_relax_of_mem _ _ he⟩
        · exact .inl (queue_subset_relax hrest)
      · exact .inr fun e he => ⟨mem_relax.mpr (.inl (hrelaxed e he).1),
          (hrelaxed e he).2.trans (hmono _)⟩
    · exact .inl hqueued

/-- The search ends in a state that meets the invariant, with an empty worklist. -/
lemma exists_inv_widest (n : Network κ α) (seeds : List κ) (top : α) :
    ∃ st, Inv n seeds top st ∧ st.queue = [] ∧ n.widest seeds top = st.best := by
  obtain ⟨fuel, hrun⟩ := runLoop_loop (measure n.credit).wf (raiseStep_decreases n)
    (.init seeds top)
  obtain ⟨st, hreach, hstep⟩ := runLoop_eq_some hrun
  obtain ⟨hqueue, hbest⟩ := raiseStep_inr hstep
  exact ⟨st, hreach.invariant (inv_init n seeds top) fun _ _ hinv => hinv.step, hqueue, hbest⟩

/-- **Widest paths.** A node's width is at least `x` exactly when a path of width `x` leads to it. -/
theorem le_width_widest_iff (hx : 0 < x) :
    x ≤ widthIn (n.widest seeds top) v ↔ Wide n seeds top x v := by
  obtain ⟨st, hinv, hqueue, hbest⟩ := exists_inv_widest n seeds top
  rw [hbest]
  constructor
  · exact hinv.sound v x hx
  · intro hwide
    induction hwide with
    | seed hv hle => exact hle.trans (hinv.seed _ hv).2
    | @arc u e _ he hle ih =>
      have hrelaxed := (hinv.settled u (hx.trans_le ih)).resolve_left (by simp [hqueue])
      exact (le_min ih hle).trans (hrelaxed e he).2

lemma width_widest_nonneg : 0 ≤ widthIn (n.widest seeds top) v := by
  obtain ⟨st, hinv, -, hbest⟩ := exists_inv_widest n seeds top
  rw [hbest]
  exact hinv.nonneg v

/-- A node is entered when it is a seed or an arc from a reached node leads to it. -/
theorem mem_widest_iff :
    v ∈ n.widest seeds top ↔
      v ∈ seeds ∨ ∃ u, (∃ x, 0 < x ∧ Wide n seeds top x u) ∧ ∃ e ∈ n.adjacent u, e.1 = v := by
  have hreached : ∀ u, 0 < widthIn (n.widest seeds top) u ↔ ∃ x, 0 < x ∧ Wide n seeds top x u :=
    fun u => ⟨fun hu => ⟨_, hu, (le_width_widest_iff hu).mp le_rfl⟩,
      fun ⟨_, hx, hwide⟩ => hx.trans_le ((le_width_widest_iff hx).mpr hwide)⟩
  simp only [← hreached]
  obtain ⟨st, hinv, hqueue, hbest⟩ := exists_inv_widest n seeds top
  rw [hbest]
  constructor
  · exact hinv.entered v
  · rintro (hv | ⟨u, hu, e, he, rfl⟩)
    · exact (hinv.seed v hv).1
    · exact ((hinv.settled u hu).resolve_left (by simp [hqueue]) e he).1

/-! ## Parts of a network -/

omit [DecidableEq κ] [Zero α] in
lemma Wide.congr {S : Set κ} (hseeds : ∀ v ∈ S, v ∈ seeds → v ∈ seeds')
    (hadjacent : ∀ u ∈ S, ∀ e ∈ n.adjacent u, e ∈ n'.adjacent u)
    (hclosed : ∀ u, ∀ e ∈ n.adjacent u, e.1 ∈ S → u ∈ S) (h : Wide n seeds top x v) (hv : v ∈ S) :
    Wide n' seeds' top x v := by
  induction h with
  | seed hmem hx => exact .seed (hseeds _ hv hmem) hx
  | @arc u e _ he hx ih =>
    have hu := hclosed u e he hv
    exact .arc (ih hu) (hadjacent u hu e he) hx

/-- On nodes that no arc enters from outside, the search depends only on their seeds and arcs. -/
theorem lookup_widest_congr {S : Set κ} (hseeds : ∀ v ∈ S, v ∈ seeds ↔ v ∈ seeds')
    (hadjacent : ∀ u ∈ S, ∀ e, e ∈ n.adjacent u ↔ e ∈ n'.adjacent u)
    (hclosed : ∀ u, ∀ e ∈ n.adjacent u, e.1 ∈ S → u ∈ S)
    (hclosed' : ∀ u, ∀ e ∈ n'.adjacent u, e.1 ∈ S → u ∈ S) (hv : v ∈ S) :
    (n.widest seeds top).lookup v = (n'.widest seeds' top).lookup v := by
  have hwide : ∀ x, ∀ u ∈ S, Wide n seeds top x u ↔ Wide n' seeds' top x u := fun x u hu =>
    ⟨fun h => h.congr (fun w hw => (hseeds w hw).mp) (fun w hw e => (hadjacent w hw e).mp) hclosed hu,
      fun h => h.congr (fun w hw => (hseeds w hw).mpr) (fun w hw e => (hadjacent w hw e).mpr)
        hclosed' hu⟩
  have hwidth : widthIn (n.widest seeds top) v = widthIn (n'.widest seeds' top) v := by
    refine le_antisymm ?_ ?_
    · rcases (width_widest_nonneg (n := n) (v := v)).eq_or_lt with hzero | hpos
      · exact hzero ▸ width_widest_nonneg
      · rw [le_width_widest_iff hpos, ← hwide _ v hv, ← le_width_widest_iff hpos]
    · rcases (width_widest_nonneg (n := n') (v := v)).eq_or_lt with hzero | hpos
      · exact hzero ▸ width_widest_nonneg
      · rw [le_width_widest_iff hpos, hwide _ v hv, ← le_width_widest_iff hpos]
  have hmem : v ∈ n.widest seeds top ↔ v ∈ n'.widest seeds' top := by
    rw [mem_widest_iff, mem_widest_iff, hseeds v hv]
    refine or_congr_right (exists_congr fun u => ?_)
    constructor
    · rintro ⟨⟨x, hx, hu⟩, e, he, rfl⟩
      have hmem := hclosed u e he hv
      exact ⟨⟨x, hx, (hwide x u hmem).mp hu⟩, e, (hadjacent u hmem e).mp he, rfl⟩
    · rintro ⟨⟨x, hx, hu⟩, e, he, rfl⟩
      have hmem := hclosed' u e he hv
      exact ⟨⟨x, hx, (hwide x u hmem).mpr hu⟩, e, (hadjacent u hmem e).mpr he, rfl⟩
  by_cases hv : v ∈ n.widest seeds top
  · obtain ⟨c, hc⟩ := Option.isSome_iff_exists.mp (AList.lookup_isSome.mpr hv)
    obtain ⟨c', hc'⟩ := Option.isSome_iff_exists.mp (AList.lookup_isSome.mpr (hmem.mp hv))
    rw [widthIn, widthIn, hc, hc'] at hwidth
    rw [hc, hc', show c = c' from hwidth]
  · rw [AList.lookup_eq_none.mpr hv, AList.lookup_eq_none.mpr (fun h => hv (hmem.mpr h))]

end WidestPath
end NestWeaver
