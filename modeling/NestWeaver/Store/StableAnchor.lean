import NestWeaver.Framework.Agents

/-!
# Stable anchors

`crates/nestweaver-store/src/stable_anchor.rs`, on the registry entry of one key: processes open the
entry, lock it and check that the path still denotes what they have locked; `daemon gc` unlinks an
entry under its own lock.  An agent is one open file description, and the kernel keeps the locks.

Whoever holds the anchor, or is about to unlink it, has a lock on the inode that the path denotes
(`Stands`).  An unlink needs the only lock, so it never finds a holder.
-/

set_option linter.all false

namespace NestWeaver
namespace StableAnchor

open Transition

/-! ## The registry entry -/

/-- A lock of an open file description on an inode. -/
structure Lock (ι : Type) where
  owner : ι
  inode : ℕ
  exclusive : Bool
  deriving DecidableEq, Repr

structure Registry (ι : Type) where
  /-- What the path denotes. -/
  path : Option ℕ
  locks : List (Lock ι)
  deriving DecidableEq, Repr

/-- How often an entry is opened again after it was replaced. -/
def maxAttempts : ℕ := 8

inductive Phase
  | idle
  /-- `acquire_in` with this many attempts left: before it opens, before it locks, before it checks,
  and after it has returned the anchor. -/
  | opening (exclusive : Bool) (attempts : ℕ)
  | opened (exclusive : Bool) (attempts inode : ℕ)
  | locked (exclusive : Bool) (attempts inode : ℕ)
  | holding (exclusive : Bool) (inode : ℕ)
  /-- `prune_authority_registry_in` after it has classified the entry for removal, after it has
  locked it, after it has checked it, and after it has unlinked it. -/
  | classified (inode : ℕ)
  | pruneLocked (inode : ℕ)
  | pruneChecked (inode : ℕ)
  | pruned (inode : ℕ)
  deriving DecidableEq, Repr

inductive Act
  | acquire (exclusive : Bool)
  /-- The entry is opened; where there is none it is created, with the inode that is given. -/
  | openEntry (created : ℕ)
  | tryLock
  /-- `is_current`. -/
  | check
  | classify
  | unlink
  /-- The description is closed: the anchor is dropped, the call returns, or the process ends. -/
  | close
  deriving DecidableEq, Repr

/-- The lock that an agent has by its phase. -/
def Phase.lock {ι : Type} (i : ι) : Phase → Option (Lock ι)
  | .locked exclusive _ inode | .holding exclusive inode => some ⟨i, inode, exclusive⟩
  | .pruneLocked inode | .pruneChecked inode | .pruned inode => some ⟨i, inode, true⟩
  | _ => none

/-- The inode that the agent takes the path to denote. -/
def Phase.current : Phase → Option ℕ
  | .holding _ inode | .pruneChecked inode => some inode
  | _ => none

variable {ι : Type} [DecidableEq ι]

namespace Registry

/-- The kernel grants a lock if no other description has one that conflicts. -/
def grants (s : Registry ι) (i : ι) (inode : ℕ) (exclusive : Bool) : Bool :=
  s.locks.all fun l => l.owner = i || l.inode ≠ inode || (!exclusive && !l.exclusive)

def lock (s : Registry ι) (i : ι) (inode : ℕ) (exclusive : Bool) : Registry ι :=
  { s with locks := ⟨i, inode, exclusive⟩ :: s.locks }

/-- Without the locks of the description. -/
def close (s : Registry ι) (i : ι) : Registry ι :=
  { s with locks := s.locks.filter (·.owner ≠ i) }

def act (i : ι) (a : Act) (s : Registry ι) (p : Phase) : Option (Registry ι × Phase) :=
  match a, p with
  | .acquire exclusive, .idle => some (s, .opening exclusive maxAttempts)
  | .openEntry created, .opening exclusive (attempts + 1) =>
    match s.path with
    | some inode => some (s, .opened exclusive attempts inode)
    | none => some ({ s with path := some created }, .opened exclusive attempts created)
  | .tryLock, .opened exclusive attempts inode =>
    if s.grants i inode exclusive then
      some (s.lock i inode exclusive, .locked exclusive attempts inode)
    else none
  | .check, .locked exclusive attempts inode =>
    if s.path = some inode then some (s, .holding exclusive inode)
    else some (s.close i, .opening exclusive attempts)
  | .classify, .idle => s.path.map fun inode => (s, .classified inode)
  | .tryLock, .classified inode =>
    if s.grants i inode true then some (s.lock i inode true, .pruneLocked inode) else none
  | .check, .pruneLocked inode =>
    if s.path = some inode then some (s, .pruneChecked inode) else some (s.close i, .idle)
  | .unlink, .pruneChecked inode => some ({ s with path := none }, .pruned inode)
  | .close, _ => some (s.close i, .idle)
  | _, _ => none

/-! ## What a step keeps -/

/-- The locks of different descriptions on one inode are shared. -/
def Compatible (s : Registry ι) : Prop :=
  ∀ l ∈ s.locks, ∀ l' ∈ s.locks, l.owner ≠ l'.owner → l.inode = l'.inode →
    l.exclusive = false ∧ l'.exclusive = false

/-- An agent has the lock of its phase and no other one, and what it takes for current is. -/
structure Stands (i : ι) (s : Registry ι) (p : Phase) : Prop where
  lock_mem : ∀ l, p.lock i = some l → l ∈ s.locks
  only_lock : ∀ l ∈ s.locks, l.owner = i → p.lock i = some l
  current : ∀ inode, p.current = some inode → s.path = some inode

variable {s s' : Registry ι} {i j : ι} {p p' q : Phase} {a : Act} {inode : ℕ} {exclusive : Bool}

omit [DecidableEq ι] in
lemma Phase.lock_of_current (h : p.current = some inode) :
    ∃ exclusive, p.lock i = some ⟨i, inode, exclusive⟩ := by
  cases p with
  | holding exclusive inode' =>
    obtain rfl := Option.some.inj h
    exact ⟨exclusive, rfl⟩
  | pruneChecked inode' =>
    obtain rfl := Option.some.inj h
    exact ⟨true, rfl⟩
  | _ => cases h

/-- A step keeps the locks apart and each agent in its place. -/
def Kept (i : ι) (s s' : Registry ι) (p' : Phase) : Prop :=
  s'.Compatible ∧ Stands i s' p' ∧ ∀ j q, j ≠ i → Stands j s q → Stands j s' q

omit [DecidableEq ι] in
lemma kept_of_path (hs : s.Compatible) (hp : Stands i s p) (hlock : p'.lock i = p.lock i)
    (hcurrent : ∀ inode, p'.current = some inode → s.path = some inode) : Kept i s s p' :=
  ⟨hs, ⟨fun l hl => hp.lock_mem l (hlock ▸ hl), fun l hl how => hlock ▸ hp.only_lock l hl how, hcurrent⟩,
    fun _ _ _ hq => hq⟩

lemma kept_close (hs : s.Compatible) (hlock : p'.lock i = none) (hcurrent : p'.current = none) :
    Kept i s (s.close i) p' := by
  refine ⟨fun l hl l' hl' => ?_, ⟨?_, ?_, ?_⟩, fun j q hj hq => ⟨?_, ?_, hq.current⟩⟩
  · exact hs l (List.mem_filter.mp hl).1 l' (List.mem_filter.mp hl').1
  · intro l hl
    rw [hlock] at hl
    cases hl
  · intro l hl how
    have hne : l.owner ≠ i := by simpa using (List.mem_filter.mp hl).2
    exact absurd how hne
  · intro inode h
    rw [hcurrent] at h
    cases h
  · intro l hl
    have hmem := hq.lock_mem l hl
    have howner : l.owner = j := by
      cases q <;> cases hl <;> rfl
    exact List.mem_filter.mpr ⟨hmem, by simpa [howner] using hj⟩
  · exact fun l hl how => hq.only_lock l (List.mem_filter.mp hl).1 how

lemma kept_lock (hs : s.Compatible) (hp : Stands i s p) (hgrants : s.grants i inode exclusive = true)
    (hnone : p.lock i = none) (hlock : p'.lock i = some ⟨i, inode, exclusive⟩)
    (hcurrent : p'.current = none) : Kept i s (s.lock i inode exclusive) p' := by
  have hfree : ∀ l ∈ s.locks, l.owner ≠ i → l.inode = inode →
      exclusive = false ∧ l.exclusive = false := by
    intro l hl how hinode
    have h := List.all_eq_true.mp hgrants l hl
    simpa [how, hinode] using h
  refine ⟨?_, ⟨?_, ?_, ?_⟩, fun j q hj hq => ⟨?_, ?_, hq.current⟩⟩
  · intro l hl l' hl' how hinode
    obtain rfl | hl := List.mem_cons.mp hl
    · obtain rfl | hl' := List.mem_cons.mp hl'
      · exact absurd rfl how
      · exact hfree l' hl' (Ne.symm how) hinode.symm
    · obtain rfl | hl' := List.mem_cons.mp hl'
      · exact (hfree l hl how hinode).symm
      · exact hs l hl l' hl' how hinode
  · intro l hl
    rw [hlock] at hl
    obtain rfl := Option.some.inj hl
    exact List.mem_cons_self
  · intro l hl how
    obtain rfl | hl := List.mem_cons.mp hl
    · exact hlock
    · have hother := hp.only_lock l hl how
      rw [hnone] at hother
      cases hother
  · intro inode' h
    rw [hcurrent] at h
    cases h
  · exact fun l hl => List.mem_cons_of_mem _ (hq.lock_mem l hl)
  · intro l hl how
    obtain rfl | hl := List.mem_cons.mp hl
    · exact absurd how.symm hj
    · exact hq.only_lock l hl how

omit [DecidableEq ι] in
/-- While an agent has the only lock on what the path denotes, no other one takes it for current. -/
lemma not_current_of_exclusive (hs : s.Compatible) (hi : (⟨i, inode, true⟩ : Lock ι) ∈ s.locks)
    (hpath : s.path = some inode) (hj : j ≠ i) (hq : Stands j s q) : q.current = none := by
  cases hcurrent : q.current with
  | none => rfl
  | some inode' =>
    obtain rfl : inode' = inode := Option.some.inj ((hq.current inode' hcurrent).symm.trans hpath)
    obtain ⟨exclusive, hlock⟩ := Phase.lock_of_current (i := j) hcurrent
    have hconflict := (hs _ (hq.lock_mem _ hlock) _ hi hj rfl).2
    cases hconflict

omit [DecidableEq ι] in
/-- A step that changes what the path denotes, when no other agent takes it for current. -/
lemma kept_path {path : Option ℕ} (hs : s.Compatible) (hp : Stands i s p)
    (hlock : p'.lock i = p.lock i) (hcurrent : p'.current = none)
    (hothers : ∀ j q, j ≠ i → Stands j s q → q.current = none) :
    Kept i s { s with path := path } p' := by
  refine ⟨hs, ⟨fun l hl => hp.lock_mem l (hlock ▸ hl),
    fun l hl how => hlock ▸ hp.only_lock l hl how, ?_⟩,
    fun j q hj hq => ⟨hq.lock_mem, hq.only_lock, ?_⟩⟩
  · intro inode h
    rw [hcurrent] at h
    cases h
  · intro inode h
    rw [hothers j q hj hq] at h
    cases h

lemma sound_act : Agents.Sound (act (ι := ι)) Compatible Stands := by
  intro i a s p s' p' hs hp h
  change Kept i s s' p'
  unfold act at h
  split at h
  · -- acquire
    cases h
    exact kept_of_path hs hp rfl (by simp [Phase.current])
  · -- openEntry
    split at h
    · cases h
      exact kept_of_path hs hp rfl (by simp [Phase.current])
    · rename_i hpath
      cases h
      refine kept_path hs hp rfl rfl fun j q _ hq => ?_
      cases hcurrent : q.current with
      | none => rfl
      | some inode =>
        have hdenotes := hq.current inode hcurrent
        rw [hpath] at hdenotes
        cases hdenotes
  · -- tryLock of an acquirer
    split_ifs at h with hgrants
    cases h
    exact kept_lock hs hp hgrants rfl rfl rfl
  · -- check of an acquirer
    split_ifs at h with hpath
    · cases h
      refine kept_of_path hs hp rfl fun inode' h' => ?_
      obtain rfl := Option.some.inj h'
      exact hpath
    · cases h
      exact kept_close hs rfl rfl
  · -- classify
    obtain ⟨inode, -, heq⟩ := Option.map_eq_some_iff.mp h
    cases heq
    exact kept_of_path hs hp rfl (by simp [Phase.current])
  · -- tryLock of a pruner
    split_ifs at h with hgrants
    cases h
    exact kept_lock hs hp hgrants rfl rfl rfl
  · -- check of a pruner
    split_ifs at h with hpath
    · cases h
      refine kept_of_path hs hp rfl fun inode' h' => ?_
      obtain rfl := Option.some.inj h'
      exact hpath
    · cases h
      exact kept_close hs rfl rfl
  · -- unlink
    cases h
    refine kept_path hs hp rfl rfl fun j q hj hq => ?_
    exact not_current_of_exclusive hs (hp.lock_mem _ rfl) (hp.current _ rfl) hj hq
  · -- close
    cases h
    exact kept_close hs rfl rfl
  · cases h

omit [DecidableEq ι] in
lemma path_kept [DecidableEq ι] (hs : s.Compatible) (hp : Stands i s p)
    (h : act i a s p = some (s', p')) (hj : j ≠ i) (hq : Stands j s q) {l : Lock ι}
    (hl : q.lock j = some l) (hpath : s.path = some l.inode) : s'.path = some l.inode := by
  unfold act at h
  split at h
  · cases h
    exact hpath
  · split at h
    · cases h
      exact hpath
    · rename_i hnone
      rw [hnone] at hpath
      cases hpath
  · split_ifs at h
    cases h
    exact hpath
  · split_ifs at h
    · cases h
      exact hpath
    · cases h
      exact hpath
  · obtain ⟨inode, -, heq⟩ := Option.map_eq_some_iff.mp h
    cases heq
    exact hpath
  · split_ifs at h
    cases h
    exact hpath
  · split_ifs at h
    · cases h
      exact hpath
    · cases h
      exact hpath
  · -- unlink: the agent has the only lock
    rename_i inode
    have hi := hp.lock_mem ⟨i, inode, true⟩ rfl
    have hcurrent := hp.current inode rfl
    have howner : l.owner = j := by
      cases q <;> cases hl <;> rfl
    have hinode : l.inode = inode := Option.some.inj (hpath.symm.trans hcurrent)
    have hconflict := (hs l (hq.lock_mem l hl) _ hi (by simpa [howner] using hj) hinode).2
    cases hconflict
  · cases h
    exact hpath
  · cases h

end Registry

/-! ## Holders -/

/-- **The anchor of a key.**  Whatever acquirers and pruners do, step by step and in any order: an
exclusive holder is the only holder, every holder has what the path denotes, and no step of another
agent takes the path from an entry that an agent has locked. -/
theorem anchors_stable {path : Option ℕ} {w : Agents ι (Registry ι) Phase}
    (h : Steps (Agents.step Registry.act) ⟨⟨path, []⟩, fun _ => .idle⟩ w) :
    (∀ i j exclusive exclusive' inode inode', i ≠ j → w.phase i = .holding exclusive inode →
        w.phase j = .holding exclusive' inode' → exclusive = false ∧ exclusive' = false) ∧
      (∀ i exclusive inode, w.phase i = .holding exclusive inode → w.shared.path = some inode) ∧
      ∀ i a w', w.step Registry.act (i, a) = some w' → ∀ j l, j ≠ i → (w.phase j).lock j = some l →
        w.shared.path = some l.inode → w'.shared.path = some l.inode := by
  have hinit : Agents.Holds Registry.Compatible Registry.Stands
      (⟨⟨path, []⟩, fun _ => .idle⟩ : Agents ι (Registry ι) Phase) := by
    refine ⟨by simp [Registry.Compatible], fun i => ⟨?_, ?_, ?_⟩⟩
    · simp [Phase.lock]
    · simp
    · simp [Phase.current]
  obtain ⟨hcompatible, hstands⟩ := Registry.sound_act.steps hinit h
  have hcurrent : ∀ i exclusive inode, w.phase i = .holding exclusive inode →
      w.shared.path = some inode := by
    intro i exclusive inode hi
    exact (hstands i).current inode (by rw [hi]; rfl)
  refine ⟨?_, hcurrent, ?_⟩
  · intro i j exclusive exclusive' inode inode' hij hi hj
    have hsame : inode = inode' :=
      Option.some.inj ((hcurrent i _ _ hi).symm.trans (hcurrent j _ _ hj))
    have hli := (hstands i).lock_mem ⟨i, inode, exclusive⟩ (by rw [hi]; rfl)
    have hlj := (hstands j).lock_mem ⟨j, inode', exclusive'⟩ (by rw [hj]; rfl)
    exact hcompatible _ hli _ hlj hij hsame
  · intro i a w' hstep j l hj hl hpath
    obtain ⟨⟨s', p'⟩, hact, rfl⟩ := Option.map_eq_some_iff.mp hstep
    exact Registry.path_kept hcompatible (hstands i) hact hj (hstands j) hl hpath

/-- An acquirer waits for the lock of a pruner, finds the entry replaced, and takes a new one. -/
def replaced : List (ℕ × Act) :=
  [(0, .classify), (1, .acquire true), (1, .openEntry 8), (0, .tryLock), (0, .check), (0, .unlink),
    (0, .close), (1, .tryLock), (1, .check), (1, .openEntry 9), (1, .tryLock), (1, .check)]

theorem anchors_stable_replaced :
    ∃ w : Agents ℕ (Registry ℕ) Phase,
      run (Agents.step Registry.act) ⟨⟨some 7, []⟩, fun _ => .idle⟩ replaced = some w ∧
        w.phase 1 = .holding true 9 ∧ w.shared.path = some 9 := by
  have hrun : ∃ w : Agents ℕ (Registry ℕ) Phase,
      run (Agents.step Registry.act) ⟨⟨some 7, []⟩, fun _ => .idle⟩ replaced = some w ∧
        w.phase 1 = .holding true 9 := ⟨_, rfl, rfl⟩
  obtain ⟨w, hw, hholding⟩ := hrun
  exact ⟨w, hw, hholding, (anchors_stable (steps_of_run hw)).2.1 1 true 9 hholding⟩

/-- Two shared holders have one current anchor; and a pruner removes the entry that an acquirer has
opened and not locked yet. -/
theorem shared_holders :
    (∃ w : Agents ℕ (Registry ℕ) Phase,
      run (Agents.step Registry.act) ⟨⟨some 7, []⟩, fun _ => .idle⟩
        [(0, .acquire false), (0, .openEntry 8), (0, .tryLock), (0, .check), (1, .acquire false),
          (1, .openEntry 8), (1, .tryLock), (1, .check)] = some w ∧
      w.shared.path = some 7 ∧ w.phase 0 = .holding false 7 ∧ w.phase 1 = .holding false 7) ∧
    ∃ w : Agents ℕ (Registry ℕ) Phase,
      run (Agents.step Registry.act) ⟨⟨some 7, []⟩, fun _ => .idle⟩ (replaced.take 6) = some w ∧
      w.shared.path = none ∧ w.phase 1 = .opened true 7 7 :=
  ⟨⟨_, rfl, rfl, rfl, rfl⟩, _, rfl, rfl, rfl⟩

end StableAnchor
end NestWeaver
