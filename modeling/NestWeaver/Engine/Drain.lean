import Mathlib.Data.Finset.Card
import NestWeaver.Framework.Agents

/-!
# The drain of the worker pool

The claim loop of `crates/nestweaver-engine/src/worker.rs`, `run_drain` of
`crates/nestweaver-engine/src/drain.rs`, and what starts and stops them: the handlers of the admin
interface that drain and resume the pool, and `begin_shutdown_drain`.

A worker raises `in_flight` before it looks whether it may claim; a drain reads `in_flight` after it
has set `shutdown_started`.  So where a drain reads zero, every worker that raises the counter later
finds shutdown started (`Daemon.Stands`).
-/

set_option linter.all false

namespace NestWeaver
namespace Drain

open Transition

def u32Size : ℕ := 4294967296

def maxIndexingWorkers : ℕ := 1024

/-- The permits of a pool. -/
def concurrency (workers : ℕ) : ℕ := max 1 (min workers maxIndexingWorkers)

/-! ## The daemon -/

structure Daemon (ι : Type) where
  drained : Bool
  shutdownStarted : Bool
  activeWrites : ℕ
  inFlight : ℕ
  /-- Who has a permit of the semaphore. -/
  permits : Finset ι
  /-- What has been sent on `shutdown_tx`. -/
  shutdown : Bool
  /-- Who counts in `inFlight`, and whether a drain has read that nothing is in flight: for the
  proofs, no operation reads them. -/
  flying : Finset ι
  settled : Bool

/-- Where an agent stands.  One that has claimed a job is the task that runs it; the loop goes on as
another agent. -/
inductive Phase (J : Type)
  | idle
  /-- A worker before the first and before the second load of `claims_blocked`. -/
  | polling
  | polled
  | waiting
  | permitted
  /-- The counter is raised; `claims_blocked` once more. -/
  | raised
  | rechecked
  | cleared
  | running (job : J)
  | finished
  /-- Before the counter is lowered without a job, and before the permit is given back. -/
  | backingOff
  | releasing
  | exited
  /-- `resume` before its first check, before its store, and before its second check. -/
  | resuming
  | resumable
  | resumed
  /-- `begin_shutdown_drain` before its swap; the loop of `run_drain`; a drain that has read zero. -/
  | stopping
  | draining
  | counting (writes : ℕ)
  | settling
  deriving DecidableEq, Repr

inductive Act (J : Type)
  /-- The next operation of what has been begun. -/
  | next
  /-- The queue's answer to a claim: a job, or none (also when the claim fails). -/
  | claim (claimed : Option J)
  /-- A wait for a permit ends because the shutdown channel has changed. -/
  | changed
  | drain
  | resume
  | beginShutdown
  /-- Writes come and go. -/
  | writes (active : ℕ)
  deriving DecidableEq, Repr

variable {ι J : Type} [DecidableEq ι]

namespace Daemon

omit [DecidableEq ι] in
def init (drained : Bool) : Daemon ι := ⟨drained, false, 0, 0, ∅, false, ∅, false⟩

/-- `fetch_add` on `in_flight`. -/
def raise (s : Daemon ι) (i : ι) : Daemon ι :=
  { s with inFlight := (s.inFlight + 1) % u32Size, flying := insert i s.flying }

/-- `fetch_sub` on `in_flight`. -/
def lower (s : Daemon ι) (i : ι) : Daemon ι :=
  { s with
    inFlight := if s.inFlight = 0 then u32Size - 1 else s.inFlight - 1
    flying := s.flying.erase i }

def next (workers : ℕ) (i : ι) (s : Daemon ι) : Phase J → Option (Daemon ι × Phase J)
  | .idle => some (s, if s.shutdown then .exited else .polling)
  | .polling => some (s, if s.drained then .idle else .polled)
  | .polled => some (s, if s.shutdownStarted then .idle else .waiting)
  | .waiting =>
    if s.permits.card < concurrency workers then
      some ({ s with permits := insert i s.permits }, .permitted)
    else none
  | .permitted => some (s.raise i, .raised)
  | .raised => some (s, if s.drained then .backingOff else .rechecked)
  | .rechecked => some (s, if s.shutdownStarted then .backingOff else .cleared)
  | .running _ => some (s, .finished)
  | .finished | .backingOff => some (s.lower i, .releasing)
  | .releasing => some ({ s with permits := s.permits.erase i }, .idle)
  | .resuming => some (s, if s.shutdownStarted then .idle else .resumable)
  | .resumable => some ({ s with drained := false }, .resumed)
  | .resumed =>
    some (if s.shutdownStarted then { s with drained := true } else s, .idle)
  | .stopping =>
    some ({ s with shutdownStarted := true }, if s.shutdownStarted then .idle else .draining)
  | .draining => some (s, .counting s.activeWrites)
  | .counting writes =>
    if writes = 0 ∧ s.inFlight = 0 then some ({ s with settled := true }, .settling)
    else some (s, .draining)
  | .settling => some ({ s with shutdown := true }, .exited)
  | .cleared | .exited => none

def act (workers : ℕ) (i : ι) (a : Act J) (s : Daemon ι) (p : Phase J) :
    Option (Daemon ι × Phase J) :=
  match a, p with
  | .next, p => s.next workers i p
  | .claim (some job), .cleared => some (s, .running job)
  | .claim none, .cleared => some (s, .backingOff)
  | .changed, .waiting => some (s, .idle)
  | .drain, .idle => some ({ s with drained := true }, .idle)
  | .resume, .idle => some (s, .resuming)
  | .beginShutdown, .idle => some ({ s with drained := true }, .stopping)
  | .writes active, p => some ({ s with activeWrites := active }, p)
  | _, _ => none

/-! ## What a step keeps -/

/-- The counter counts who is in flight, and all of them have permits. -/
structure Counts (workers : ℕ) (s : Daemon ι) : Prop where
  inFlight : s.inFlight = s.flying.card
  permitted : s.flying ⊆ s.permits
  permits : s.permits.card ≤ concurrency workers
  settled : s.settled = true → s.shutdownStarted = true

end Daemon

/-- The agent counts in `inFlight`. -/
def Phase.flies : Phase J → Prop
  | .raised | .rechecked | .cleared | .running _ | .finished | .backingOff => True
  | _ => False

/-- The agent has found that it may claim. -/
def Phase.clear : Phase J → Prop
  | .cleared | .running _ => True
  | _ => False

namespace Daemon

/-- Where an agent stands, as far as the counter, the permits and the shutdown go. -/
structure Stands (i : ι) (s : Daemon ι) (p : Phase J) : Prop where
  flying : i ∈ s.flying ↔ p.flies
  permitted : p = .permitted → i ∈ s.permits
  started : p = .draining ∨ (∃ writes, p = .counting writes) → s.shutdownStarted = true
  settling : p = .settling → s.settled = true
  clear : s.settled = true → ¬p.clear

variable {workers : ℕ} {s s' : Daemon ι} {i j : ι} {p p' q : Phase J} {a : Act J}

/-- A step keeps the counter right, each agent in its place, and what has settled. -/
structure Kept (workers : ℕ) (i : ι) (s s' : Daemon ι) (p' : Phase J) : Prop where
  counts : s'.Counts workers
  stands : Stands i s' p'
  others : ∀ j (q : Phase J), j ≠ i → Stands j s q → Stands j s' q
  settled : s.settled = true → s'.settled = true

/-- A step that leaves the counter and the permits alone. -/
structure Same (s s' : Daemon ι) : Prop where
  inFlight : s'.inFlight = s.inFlight
  flying : s'.flying = s.flying
  permits : s'.permits = s.permits
  settled : s'.settled = s.settled
  shutdownStarted : s.shutdownStarted = true → s'.shutdownStarted = true

lemma concurrency_lt : concurrency workers < u32Size := by
  simp only [concurrency, maxIndexingWorkers, u32Size]
  omega

omit [DecidableEq ι] in
lemma Same.counts (h : Same s s') (hs : s.Counts workers) : s'.Counts workers := by
  refine ⟨?_, ?_, ?_, fun hsettled => ?_⟩
  · rw [h.inFlight, h.flying, hs.inFlight]
  · rw [h.flying, h.permits]
    exact hs.permitted
  · rw [h.permits]
    exact hs.permits
  · rw [h.settled] at hsettled
    exact h.shutdownStarted (hs.settled hsettled)

omit [DecidableEq ι] in
lemma Same.stands (h : Same s s') (hq : Stands j s q) : Stands j s' q := by
  refine ⟨?_, fun hp => ?_, fun hp => h.shutdownStarted (hq.started hp), fun hp => ?_,
    fun hsettled => hq.clear ?_⟩
  · rw [h.flying]
    exact hq.flying
  · rw [h.permits]
    exact hq.permitted hp
  · rw [h.settled]
    exact hq.settling hp
  · rw [← h.settled]
    exact hsettled

omit [DecidableEq ι] in
lemma Same.kept (h : Same s s') (hs : s.Counts workers) (hp' : Stands i s' p') :
    Kept workers i s s' p' :=
  ⟨h.counts hs, hp', fun _ _ _ hq => h.stands hq, fun hsettled => h.settled.trans hsettled⟩

omit [DecidableEq ι] in
lemma Same.refl (s : Daemon ι) : Same s s := ⟨rfl, rfl, rfl, rfl, id⟩

omit [DecidableEq ι] in
/-- A phase of which nothing but its place at the counter is known. -/
lemma stands_of_flies (hflying : i ∈ s'.flying ↔ p'.flies) (hpermitted : p' ≠ .permitted)
    (hdraining : p' ≠ .draining) (hcounting : ∀ writes, p' ≠ .counting writes)
    (hsettling : p' ≠ .settling) (hclear : s'.settled = true → ¬p'.clear) : Stands i s' p' :=
  ⟨hflying, fun h => absurd h hpermitted,
    fun h => h.elim (absurd · hdraining) fun ⟨writes, h⟩ => absurd h (hcounting writes),
    fun h => absurd h hsettling, hclear⟩

lemma kept_raise (hs : s.Counts workers) (hp : Stands i s (.permitted : Phase J)) :
    Kept workers i s (s.raise i) (.raised : Phase J) := by
  have hnot : i ∉ s.flying := fun h => hp.flying.mp h
  have hsubset : insert i s.flying ⊆ s.permits :=
    Finset.insert_subset (hp.permitted rfl) hs.permitted
  have hcard := Finset.card_insert_of_notMem hnot
  have hlt : (insert i s.flying).card < u32Size :=
    lt_of_le_of_lt ((Finset.card_le_card hsubset).trans hs.permits) concurrency_lt
  refine ⟨⟨?_, hsubset, hs.permits, hs.settled⟩, ?_, fun j q hj hq => ?_, id⟩
  · change (s.inFlight + 1) % u32Size = (insert i s.flying).card
    rw [hs.inFlight, ← hcard, Nat.mod_eq_of_lt hlt]
  · refine stands_of_flies ?_ ?_ ?_ ?_ ?_ ?_ <;> simp [raise, Phase.flies, Phase.clear]
  · refine ⟨?_, hq.permitted, hq.started, hq.settling, hq.clear⟩
    rw [← hq.flying]
    simp [raise, hj]

@[simp] lemma lower_flying (s : Daemon ι) (i : ι) : (s.lower i).flying = s.flying.erase i := rfl

@[simp] lemma lower_permits (s : Daemon ι) (i : ι) : (s.lower i).permits = s.permits := rfl

@[simp] lemma lower_settled (s : Daemon ι) (i : ι) : (s.lower i).settled = s.settled := rfl

@[simp] lemma lower_shutdownStarted (s : Daemon ι) (i : ι) :
    (s.lower i).shutdownStarted = s.shutdownStarted := rfl

lemma lower_inFlight (hs : s.Counts workers) (hi : i ∈ s.flying) :
    (s.lower i).inFlight = (s.flying.erase i).card := by
  have hpos : 0 < s.flying.card := Finset.card_pos.mpr ⟨i, hi⟩
  have hne : s.inFlight ≠ 0 := by
    rw [hs.inFlight]
    omega
  rw [Finset.card_erase_of_mem hi, lower, if_neg hne, hs.inFlight]

lemma kept_lower (hs : s.Counts workers) (hp : Stands i s p) (hflies : p.flies) :
    Kept workers i s (s.lower i) (.releasing : Phase J) := by
  have hmem : i ∈ s.flying := hp.flying.mpr hflies
  refine ⟨⟨lower_inFlight hs hmem, ?_, ?_, ?_⟩, ?_, fun j q hj hq => ?_, ?_⟩
  · exact (Finset.erase_subset _ _).trans hs.permitted
  · simpa using hs.permits
  · simpa using hs.settled
  · refine stands_of_flies ?_ ?_ ?_ ?_ ?_ ?_ <;> simp [Phase.flies, Phase.clear]
  · refine ⟨?_, ?_, ?_, ?_, ?_⟩
    · simpa [hj] using hq.flying
    · simpa using hq.permitted
    · simpa using hq.started
    · simpa using hq.settling
    · simpa using hq.clear
  · simp

lemma kept_acquire (hs : s.Counts workers) (hp : Stands i s (.waiting : Phase J))
    (hfree : s.permits.card < concurrency workers) :
    Kept workers i s { s with permits := insert i s.permits } (.permitted : Phase J) := by
  refine ⟨⟨hs.inFlight, hs.permitted.trans (Finset.subset_insert _ _), ?_, hs.settled⟩,
    ⟨hp.flying, fun _ => Finset.mem_insert_self _ _, by simp, by simp, by simp [Phase.clear]⟩,
    fun j q _ hq => ⟨hq.flying, fun h => Finset.mem_insert_of_mem (hq.permitted h), hq.started,
      hq.settling, hq.clear⟩, id⟩
  have hcard := Finset.card_insert_le i s.permits
  change (insert i s.permits).card ≤ _
  omega

lemma kept_release (hs : s.Counts workers) (hp : Stands i s (.releasing : Phase J)) :
    Kept workers i s { s with permits := s.permits.erase i } (.idle : Phase J) := by
  refine ⟨⟨hs.inFlight, ?_, (Finset.card_le_card (Finset.erase_subset _ _)).trans hs.permits,
    hs.settled⟩, ⟨hp.flying, by simp, by simp, by simp, by simp [Phase.clear]⟩,
    fun j q hj hq => ⟨hq.flying, fun h => ?_, hq.started, hq.settling, hq.clear⟩, id⟩
  · intro j hj
    have hne : j ≠ i := by
      intro h
      subst h
      exact hp.flying.mp hj
    exact Finset.mem_erase.mpr ⟨hne, hs.permitted hj⟩
  · exact Finset.mem_erase.mpr ⟨hj, hq.permitted h⟩

omit [DecidableEq ι] in
/-- A drain reads zero after shutdown has started: nobody is in flight, so nobody is clear. -/
lemma kept_settle {writes : ℕ} (hs : s.Counts workers) (hp : Stands i s (.counting writes : Phase J))
    (hzero : s.inFlight = 0) :
    Kept workers i s { s with settled := true } (.settling : Phase J) := by
  have hnone : s.flying = ∅ := by
    rw [← Finset.card_eq_zero, ← hs.inFlight, hzero]
  have hstarted : s.shutdownStarted = true := hp.started (.inr ⟨writes, rfl⟩)
  refine ⟨⟨hs.inFlight, hs.permitted, hs.permits, fun _ => hstarted⟩,
    ⟨hp.flying, by simp, by simp, fun _ => rfl, by simp [Phase.clear]⟩,
    fun j q _ hq => ⟨hq.flying, hq.permitted, hq.started, fun _ => rfl, fun _ hclear => ?_⟩,
    fun _ => rfl⟩
  have hflies : q.flies := by
    cases q <;> first | exact True.intro | exact hclear
  have hmem := hq.flying.mpr hflies
  rw [hnone] at hmem
  exact absurd hmem (Finset.notMem_empty j)

omit [DecidableEq ι] in
/-- A step that changes nothing, into a phase like the one before. -/
lemma kept_goto (hs : s.Counts workers) (hp : Stands i s p) (hflies : p'.flies ↔ p.flies)
    (hpermitted : p' ≠ .permitted) (hdraining : p' ≠ .draining)
    (hcounting : ∀ writes, p' ≠ .counting writes) (hsettling : p' ≠ .settling)
    (hclear : s.settled = true → ¬p'.clear) : Kept workers i s s p' :=
  (Same.refl s).kept hs
    (stands_of_flies (hp.flying.trans hflies.symm) hpermitted hdraining hcounting hsettling hclear)

omit [DecidableEq ι] in
/-- `begin_shutdown_drain` after its swap. -/
lemma kept_start (hs : s.Counts workers) (hp : Stands i s (.stopping : Phase J)) :
    Kept workers i s { s with shutdownStarted := true }
      (if s.shutdownStarted = true then .idle else .draining : Phase J) := by
  have hsame : Same s { s with shutdownStarted := true } := ⟨rfl, rfl, rfl, rfl, fun _ => rfl⟩
  refine hsame.kept hs ?_
  have hflying : i ∈ s.flying ↔ False := hp.flying
  split_ifs
  · exact ⟨hflying, by simp, by simp, by simp, by simp [Phase.clear]⟩
  · exact ⟨hflying, by simp, fun _ => rfl, by simp, by simp [Phase.clear]⟩

lemma kept_next (hs : s.Counts workers) (hp : Stands i s p)
    (h : s.next workers i p = some (s', p')) : Kept workers i s s' p' := by
  cases p with
  | idle =>
    cases h
    split_ifs
    · exact kept_goto hs hp Iff.rfl (by simp) (by simp) (by simp) (by simp) (by simp [Phase.clear])
    · exact kept_goto hs hp Iff.rfl (by simp) (by simp) (by simp) (by simp) (by simp [Phase.clear])
  | polling =>
    cases h
    split_ifs
    · exact kept_goto hs hp Iff.rfl (by simp) (by simp) (by simp) (by simp) (by simp [Phase.clear])
    · exact kept_goto hs hp Iff.rfl (by simp) (by simp) (by simp) (by simp) (by simp [Phase.clear])
  | polled =>
    cases h
    split_ifs
    · exact kept_goto hs hp Iff.rfl (by simp) (by simp) (by simp) (by simp) (by simp [Phase.clear])
    · exact kept_goto hs hp Iff.rfl (by simp) (by simp) (by simp) (by simp) (by simp [Phase.clear])
  | waiting =>
    simp only [next] at h
    split_ifs at h with hfree
    cases h
    exact kept_acquire hs hp hfree
  | permitted =>
    cases h
    exact kept_raise hs hp
  | raised =>
    cases h
    split_ifs
    · exact kept_goto hs hp Iff.rfl (by simp) (by simp) (by simp) (by simp) (by simp [Phase.clear])
    · exact kept_goto hs hp Iff.rfl (by simp) (by simp) (by simp) (by simp) (by simp [Phase.clear])
  | rechecked =>
    cases h
    split_ifs with hstarted
    · exact kept_goto hs hp Iff.rfl (by simp) (by simp) (by simp) (by simp) (by simp [Phase.clear])
    · -- clear to claim, so no drain has read zero
      refine kept_goto hs hp Iff.rfl (by simp) (by simp) (by simp) (by simp) fun hsettled => ?_
      exact absurd (hs.settled hsettled) hstarted
  | cleared => cases h
  | running job =>
    cases h
    exact kept_goto hs hp Iff.rfl (by simp) (by simp) (by simp) (by simp) (by simp [Phase.clear])
  | finished =>
    cases h
    exact kept_lower hs hp True.intro
  | backingOff =>
    cases h
    exact kept_lower hs hp True.intro
  | releasing =>
    cases h
    exact kept_release hs hp
  | exited => cases h
  | resuming =>
    cases h
    split_ifs
    · exact kept_goto hs hp Iff.rfl (by simp) (by simp) (by simp) (by simp) (by simp [Phase.clear])
    · exact kept_goto hs hp Iff.rfl (by simp) (by simp) (by simp) (by simp) (by simp [Phase.clear])
  | resumable =>
    cases h
    have hsame : Same s { s with drained := false } := ⟨rfl, rfl, rfl, rfl, id⟩
    exact hsame.kept hs ⟨hp.flying, by simp, by simp, by simp, by simp [Phase.clear]⟩
  | resumed =>
    cases h
    have hsame : Same s (if s.shutdownStarted = true then { s with drained := true } else s) := by
      split_ifs
      · exact ⟨rfl, rfl, rfl, rfl, id⟩
      · exact Same.refl s
    refine hsame.kept hs ⟨?_, by simp, by simp, by simp, by simp [Phase.clear]⟩
    rw [hsame.flying]
    exact hp.flying
  | stopping =>
    cases h
    exact kept_start hs hp
  | draining =>
    cases h
    have hstarted := hp.started (.inl rfl)
    exact (Same.refl s).kept hs
      ⟨hp.flying, by simp, fun _ => hstarted, by simp, by simp [Phase.clear]⟩
  | counting writes =>
    simp only [next] at h
    have hstarted := hp.started (.inr ⟨writes, rfl⟩)
    split_ifs at h with hzero
    · cases h
      exact kept_settle hs hp hzero.2
    · cases h
      exact (Same.refl s).kept hs
        ⟨hp.flying, by simp, fun _ => hstarted, by simp, by simp [Phase.clear]⟩
  | settling =>
    cases h
    have hsame : Same s { s with shutdown := true } := ⟨rfl, rfl, rfl, rfl, id⟩
    exact hsame.kept hs ⟨hp.flying, by simp, by simp, by simp, by simp [Phase.clear]⟩

lemma kept_act (hs : s.Counts workers) (hp : Stands i s p) (h : act workers i a s p = some (s', p')) :
    Kept workers i s s' p' := by
  unfold act at h
  split at h
  · exact kept_next hs hp h
  · -- a job is claimed
    cases h
    exact kept_goto hs hp Iff.rfl (by simp) (by simp) (by simp) (by simp) hp.clear
  · cases h
    exact kept_goto hs hp Iff.rfl (by simp) (by simp) (by simp) (by simp) (by simp [Phase.clear])
  · cases h
    exact kept_goto hs hp Iff.rfl (by simp) (by simp) (by simp) (by simp) (by simp [Phase.clear])
  · -- drain
    cases h
    have hsame : Same s { s with drained := true } := ⟨rfl, rfl, rfl, rfl, id⟩
    exact hsame.kept hs ⟨hp.flying, by simp, by simp, by simp, by simp [Phase.clear]⟩
  · cases h
    exact kept_goto hs hp Iff.rfl (by simp) (by simp) (by simp) (by simp) (by simp [Phase.clear])
  · -- beginShutdown
    cases h
    have hsame : Same s { s with drained := true } := ⟨rfl, rfl, rfl, rfl, id⟩
    exact hsame.kept hs ⟨hp.flying, by simp, by simp, by simp, by simp [Phase.clear]⟩
  · -- writes
    rename_i active
    cases h
    have hsame : Same s { s with activeWrites := active } := ⟨rfl, rfl, rfl, rfl, id⟩
    exact hsame.kept hs (hsame.stands hp)
  · cases h

omit [DecidableEq ι] in
lemma act_claim [DecidableEq ι] {job : J} (h : ¬p.clear) :
    act workers i (.claim (some job)) s p = none := by
  cases p with
  | cleared => exact absurd True.intro h
  | _ => rfl

/-- Every act keeps the counter and the agents in their places, and that a drain has read zero where
it has. -/
lemma sound_act (settled : Bool) : Agents.Sound (act (ι := ι) (J := J) workers)
    (fun s => s.Counts workers ∧ (settled = true → s.settled = true)) Stands := by
  intro i a s p s' p' hs hp h
  have hkept := kept_act hs.1 hp h
  exact ⟨⟨hkept.counts, fun hsettled => hkept.settled (hs.2 hsettled)⟩, hkept.stands, hkept.others⟩

end Daemon

/-! ## The handshake -/

/-- A pool at rest. -/
def atRest (ι J : Type) (drained : Bool) : Agents ι (Daemon ι) (Phase J) :=
  ⟨Daemon.init drained, fun _ => .idle⟩

variable {workers : ℕ} {w w' : Agents ι (Daemon ι) (Phase J)} {d : ι} {drained : Bool}

omit [DecidableEq ι] in
lemma holds_atRest : (atRest ι J drained).Holds
    (fun s => s.Counts workers ∧ (false = true → s.settled = true)) Daemon.Stands := by
  refine ⟨⟨⟨rfl, subset_rfl, Nat.zero_le _, by simp [atRest, Daemon.init]⟩, by simp⟩, fun i => ?_⟩
  exact ⟨by simp [atRest, Daemon.init, Phase.flies], by simp [atRest], by simp [atRest],
    by simp [atRest], by simp [atRest, Phase.clear]⟩

/-- **The handshake of drain and workers.**  Whatever workers, drains and resumes do, in any order:
when a drain has read zero and is about to broadcast the shutdown, no job is claimed and unfinished,
and from then on none is and none can be claimed. -/
theorem drain_settles (h : Steps (Agents.step (Daemon.act workers)) (atRest ι J drained) w)
    (hd : w.phase d = .settling) (h' : Steps (Agents.step (Daemon.act workers)) w w') :
    ∀ i job, w'.phase i ≠ .running job ∧
      w'.step (Daemon.act workers) (i, .claim (some job)) = none := by
  have hw := (Daemon.sound_act false).steps holds_atRest h
  have hsettled : w.shared.settled = true := (hw.agent d).settling hd
  have hw' := (Daemon.sound_act true).steps ⟨⟨hw.shared.1, fun _ => hsettled⟩, hw.agent⟩ h'
  intro i job
  have hclear := (hw'.agent i).clear (hw'.shared.2 rfl)
  refine ⟨fun hrunning => hclear (by rw [hrunning]; exact True.intro), ?_⟩
  exact Option.map_eq_none_iff.mpr (Daemon.act_claim hclear)

/-- A worker runs a job when the shutdown starts; a resume overwrites `drained`, and another worker
then backs off because shutdown has started. -/
def resumedMeanwhile : List (ℕ × Act ℕ) :=
  List.replicate 7 (0, Act.next) ++ [(0, Act.claim (some 7)), (1, Act.resume), (1, Act.next)] ++
    List.replicate 4 (3, Act.next) ++ [(2, Act.beginShutdown), (1, Act.next), (2, Act.next)] ++
    List.replicate 3 (3, Act.next) ++
    [(2, Act.next), (2, Act.next), (0, Act.next), (0, Act.next), (3, Act.next)] ++
    [(2, Act.next), (2, Act.next)]

theorem drain_settles_resumed : ∃ w : Agents ℕ (Daemon ℕ) (Phase ℕ),
    run (Agents.step (Daemon.act 2)) (atRest ℕ ℕ false) resumedMeanwhile = some w ∧
      w.phase 2 = .settling ∧ w.shared.drained = false ∧ ∀ i job, w.phase i ≠ .running job := by
  have hrun : ∃ w : Agents ℕ (Daemon ℕ) (Phase ℕ),
      run (Agents.step (Daemon.act 2)) (atRest ℕ ℕ false) resumedMeanwhile = some w ∧
        w.phase 2 = .settling ∧ w.shared.drained = false := ⟨_, rfl, rfl, rfl⟩
  obtain ⟨w, hw, hsettling, hdrained⟩ := hrun
  refine ⟨w, hw, hsettling, hdrained, fun i job => ?_⟩
  exact (drain_settles (steps_of_run hw) hsettling (Steps.refl w) i job).1

end Drain
end NestWeaver
