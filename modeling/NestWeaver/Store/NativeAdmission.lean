import Mathlib.Data.Finset.Card
import Mathlib.Data.Set.Card
import NestWeaver.Framework.Agents

/-!
# Admission of native calls

`crates/nestweaver-store/src/native_admission.rs`: reads overlap, and an exclusive call runs alone.  A thread
has the mutex from one wait on the condition variable to the next, so what it does there is one act; it wakes
when it is notified, when its wait has timed out, or for no reason.

Whoever sleeps cannot be admitted (`Gate.Stands`), so no notification is missing.
-/

set_option linter.all false

namespace NestWeaver
namespace NativeAdmission

open Transition

inductive Mode
  | read
  | exclusive
  deriving DecidableEq, Repr

/-! ## The gate -/

structure Gate (ι : Type) where
  readers : ℕ
  exclusive : Bool
  exclusiveWaiters : ℕ
  /-- Who waits for `changed` and has not been woken. -/
  asleep : Finset ι
  /-- Who reads, who has the gate alone, and who waits for that: for the proofs, no operation reads them. -/
  reading : Finset ι
  excluding : Finset ι
  queued : Finset ι

inductive Phase
  | idle
  /-- In the loop of `acquire_inner`. -/
  | waiting (mode : Mode) (deadline : Option ℕ)
  /-- The `Admission` is alive. -/
  | inside (mode : Mode)
  deriving DecidableEq, Repr

inductive Act
  /-- `acquire` up to its first wait; `acquire_exclusive_cleanup` is exclusive and has no deadline. -/
  | acquire (mode : Mode) (deadline : Option ℕ) (now : ℕ)
  | wake
  /-- The loop once more. -/
  | retry (now : ℕ)
  | drop
  deriving DecidableEq, Repr

def usizeMax : ℕ := 18446744073709551615

/-- `-= 1`, which wraps around. -/
def minusOne (n : ℕ) : ℕ := if n = 0 then usizeMax else n - 1

variable {ι : Type} [DecidableEq ι]

namespace Gate

omit [DecidableEq ι] in
/-- `NativeAdmission::default`. -/
def default : Gate ι := ⟨0, false, 0, ∅, ∅, ∅, ∅⟩

omit [DecidableEq ι] in
def notifyAll (s : Gate ι) : Gate ι := { s with asleep := ∅ }

omit [DecidableEq ι] in
def admits (s : Gate ι) : Mode → Bool
  | .read => !s.exclusive && s.exclusiveWaiters = 0
  | .exclusive => !s.exclusive && s.readers = 0

def enqueue (s : Gate ι) (i : ι) : Mode → Gate ι
  | .read => s
  | .exclusive => { s with exclusiveWaiters := s.exclusiveWaiters + 1, queued := insert i s.queued }

def dequeue (s : Gate ι) (i : ι) : Gate ι :=
  { s with exclusiveWaiters := minusOne s.exclusiveWaiters, queued := s.queued.erase i }

/-- The call returns `Timeout`. -/
def expire (s : Gate ι) (i : ι) : Mode → Gate ι
  | .read => s
  | .exclusive => (s.dequeue i).notifyAll

def admitted (s : Gate ι) (i : ι) : Mode → Gate ι
  | .read => { s with readers := s.readers + 1, reading := insert i s.reading }
  | .exclusive => { s.dequeue i with exclusive := true, excluding := insert i s.excluding }

/-- The body of the loop. -/
def iteration (s : Gate ι) (i : ι) (mode : Mode) (deadline : Option ℕ) (now : ℕ) : Gate ι × Phase :=
  if deadline.any (· ≤ now) then (s.expire i mode, .idle)
  else if s.admits mode then (s.admitted i mode, .inside mode)
  else ({ s with asleep := insert i s.asleep }, .waiting mode deadline)

/-- `Admission::drop`. -/
def release (s : Gate ι) (i : ι) : Mode → Gate ι
  | .read => notifyAll { s with readers := minusOne s.readers, reading := s.reading.erase i }
  | .exclusive => notifyAll { s with exclusive := false, excluding := s.excluding.erase i }

def act (i : ι) (a : Act) (s : Gate ι) (p : Phase) : Option (Gate ι × Phase) :=
  match a, p with
  | .acquire mode deadline now, .idle => some ((s.enqueue i mode).iteration i mode deadline now)
  | .wake, .waiting mode deadline => some ({ s with asleep := s.asleep.erase i }, .waiting mode deadline)
  | .retry now, .waiting mode deadline =>
    if i ∈ s.asleep then none else some (s.iteration i mode deadline now)
  | .drop, .inside mode => some (s.release i mode, .idle)
  | _, _ => none

/-! ## What an act keeps -/

/-- The counters count who is where, and who excludes is alone. -/
structure Counts (s : Gate ι) : Prop where
  readers : s.readers = s.reading.card
  waiters : s.exclusiveWaiters = s.queued.card
  exclusive : s.excluding.card = s.exclusive.toNat
  alone : s.exclusive = true → s.reading = ∅

/-- Where a thread stands.  One that sleeps cannot be admitted. -/
structure Stands (i : ι) (s : Gate ι) (p : Phase) : Prop where
  reading : i ∈ s.reading ↔ p = .inside .read
  excluding : i ∈ s.excluding ↔ p = .inside .exclusive
  queued : i ∈ s.queued ↔ ∃ deadline, p = .waiting .exclusive deadline
  asleep : i ∈ s.asleep → ∃ mode deadline, p = .waiting mode deadline ∧ s.admits mode = false

/-- An act keeps the counters right, and each thread in its place. -/
structure Kept (i : ι) (s s' : Gate ι) (p' : Phase) : Prop where
  counts : s'.Counts
  stands : Stands i s' p'
  others : ∀ j q, j ≠ i → Stands j s q → Stands j s' q

variable {s s' : Gate ι} {i j : ι} {p p' q : Phase} {mode : Mode} {deadline : Option ℕ} {now : ℕ} {a : Act}

omit [DecidableEq ι] in
lemma Kept.trans {s'' : Gate ι} {p'' : Phase} (h : Kept i s s' p') (h' : Kept i s' s'' p'') :
    Kept i s s'' p'' :=
  ⟨h'.counts, h'.stands, fun j q hj hq => h'.others j q hj (h.others j q hj hq)⟩

omit [DecidableEq ι] in
lemma admits_read : s.admits .read = true ↔ s.exclusive = false ∧ s.exclusiveWaiters = 0 := by
  simp [admits]

omit [DecidableEq ι] in
lemma admits_exclusive : s.admits .exclusive = true ↔ s.exclusive = false ∧ s.readers = 0 := by
  simp [admits]

omit [DecidableEq ι] in
lemma exclusive_of_mem (hs : s.Counts) (hi : i ∈ s.excluding) : s.exclusive = true := by
  have hpos := Finset.card_pos.mpr ⟨i, hi⟩
  rw [hs.exclusive] at hpos
  by_contra hopen
  simp [Bool.eq_false_iff.mpr hopen] at hpos

lemma minusOne_card {t : Finset ι} (hi : i ∈ t) : minusOne t.card = (t.erase i).card := by
  have hpos := Finset.card_pos.mpr ⟨i, hi⟩
  rw [minusOne, if_neg (by omega), Finset.card_erase_of_mem hi]

omit [DecidableEq ι] in
lemma Stands.awake (hp : Stands i s .idle) : i ∉ s.asleep := by
  intro h
  obtain ⟨mode, deadline, hp, -⟩ := hp.asleep h
  cases hp

@[simp] lemma asleep_enqueue : (s.enqueue i mode).asleep = s.asleep := by cases mode <;> rfl

lemma kept_enqueue (hs : s.Counts) (hp : Stands i s .idle) :
    Kept i s (s.enqueue i mode) (.waiting mode deadline) := by
  have hawake := hp.awake
  cases mode with
  | read =>
    refine ⟨hs, ⟨?_, ?_, ?_, fun h => absurd h hawake⟩, fun j q _ hq => hq⟩
    · simpa [enqueue] using hp.reading
    · simpa [enqueue] using hp.excluding
    · simpa [enqueue] using hp.queued
  | exclusive =>
    have hnot : i ∉ s.queued := by simp [hp.queued]
    refine ⟨⟨hs.readers, ?_, hs.exclusive, hs.alone⟩, ⟨?_, ?_, ?_, fun h => absurd h hawake⟩,
      fun j q hj hq => ⟨hq.reading, hq.excluding, ?_, fun h => ?_⟩⟩
    · change s.exclusiveWaiters + 1 = (insert i s.queued).card
      rw [Finset.card_insert_of_notMem hnot, hs.waiters]
    · simpa [enqueue] using hp.reading
    · simpa [enqueue] using hp.excluding
    · simp [enqueue]
    · simpa [enqueue, hj] using hq.queued
    · obtain ⟨mode, deadline, rfl, hadmits⟩ := hq.asleep h
      refine ⟨mode, deadline, rfl, ?_⟩
      cases mode with
      | read => simp [admits, enqueue]
      | exclusive => exact hadmits

lemma kept_expire (hs : s.Counts) (hp : Stands i s (.waiting mode deadline)) (hawake : i ∉ s.asleep) :
    Kept i s (s.expire i mode) .idle := by
  cases mode with
  | read =>
    refine ⟨hs, ⟨?_, ?_, ?_, fun h => absurd h hawake⟩, fun j q _ hq => hq⟩
    · simpa [expire] using hp.reading
    · simpa [expire] using hp.excluding
    · simpa [expire] using hp.queued
  | exclusive =>
    have hmem : i ∈ s.queued := hp.queued.mpr ⟨deadline, rfl⟩
    refine ⟨⟨hs.readers, ?_, hs.exclusive, hs.alone⟩,
      ⟨?_, ?_, ?_, fun h => absurd h (Finset.notMem_empty i)⟩, fun j q hj hq =>
      ⟨hq.reading, hq.excluding, ?_, fun h => absurd h (Finset.notMem_empty j)⟩⟩
    · change minusOne s.exclusiveWaiters = (s.queued.erase i).card
      rw [hs.waiters, minusOne_card hmem]
    · simpa [expire, dequeue, notifyAll] using hp.reading
    · simpa [expire, dequeue, notifyAll] using hp.excluding
    · simp [expire, dequeue, notifyAll]
    · simpa [expire, dequeue, notifyAll, hj] using hq.queued

lemma kept_admit (hs : s.Counts) (hp : Stands i s (.waiting mode deadline)) (hawake : i ∉ s.asleep)
    (hadmits : s.admits mode = true) : Kept i s (s.admitted i mode) (.inside mode) := by
  cases mode with
  | read =>
    obtain ⟨hopen, hnobody⟩ := admits_read.mp hadmits
    have hnot : i ∉ s.reading := by simp [hp.reading]
    refine ⟨⟨?_, hs.waiters, hs.exclusive, fun h => ?_⟩, ⟨?_, ?_, ?_, fun h => absurd h hawake⟩,
      fun j q hj hq => ⟨?_, hq.excluding, hq.queued, fun h => ?_⟩⟩
    · change s.readers + 1 = (insert i s.reading).card
      rw [Finset.card_insert_of_notMem hnot, hs.readers]
    · change s.exclusive = true at h
      rw [hopen] at h
      cases h
    · simp [admitted]
    · simpa [admitted] using hp.excluding
    · simpa [admitted] using hp.queued
    · simpa [admitted, hj] using hq.reading
    · -- a reader would have been admitted, and an exclusive call waits for one more
      obtain ⟨mode, deadline, rfl, hrefused⟩ := hq.asleep h
      refine ⟨mode, deadline, rfl, ?_⟩
      cases mode with
      | read => exact hrefused
      | exclusive => simp [admits, admitted]
  | exclusive =>
    obtain ⟨hopen, hnobody⟩ := admits_exclusive.mp hadmits
    have hmem : i ∈ s.queued := hp.queued.mpr ⟨deadline, rfl⟩
    have hempty : s.excluding = ∅ := by
      rw [← Finset.card_eq_zero, hs.exclusive, hopen]
      rfl
    refine ⟨⟨hs.readers, ?_, ?_, fun _ => ?_⟩, ⟨?_, ?_, ?_, fun h => absurd h hawake⟩,
      fun j q hj hq => ⟨hq.reading, ?_, ?_, fun h => ?_⟩⟩
    · change minusOne s.exclusiveWaiters = (s.queued.erase i).card
      rw [hs.waiters, minusOne_card hmem]
    · simp [admitted, hempty]
    · exact Finset.card_eq_zero.mp (hs.readers.symm.trans hnobody)
    · simpa [admitted, dequeue] using hp.reading
    · simp [admitted]
    · simp [admitted, dequeue]
    · simpa [admitted, hj] using hq.excluding
    · simpa [admitted, dequeue, hj] using hq.queued
    · obtain ⟨mode, deadline, rfl, -⟩ := hq.asleep h
      exact ⟨mode, deadline, rfl, by cases mode <;> rfl⟩

lemma kept_sleep (hs : s.Counts) (hp : Stands i s (.waiting mode deadline))
    (hrefused : s.admits mode = false) :
    Kept i s { s with asleep := insert i s.asleep } (.waiting mode deadline) := by
  refine ⟨⟨hs.readers, hs.waiters, hs.exclusive, hs.alone⟩,
    ⟨hp.reading, hp.excluding, hp.queued, fun _ => ⟨mode, deadline, rfl, hrefused⟩⟩,
    fun j q hj hq => ⟨hq.reading, hq.excluding, hq.queued, fun h => hq.asleep ?_⟩⟩
  exact Finset.mem_of_mem_insert_of_ne h hj

/-- A call that would be admitted returns. -/
lemma phase_of_admits (h : s.admits mode = true) :
    (s.iteration i mode deadline now).2 = if deadline.any (· ≤ now) then .idle else .inside mode := by
  rw [iteration, if_pos h]
  split_ifs
  · rfl
  · rfl

lemma kept_iteration (hs : s.Counts) (hp : Stands i s (.waiting mode deadline)) (hawake : i ∉ s.asleep)
    (h : s.iteration i mode deadline now = (s', p')) : Kept i s s' p' := by
  rw [iteration] at h
  split_ifs at h with hexpired hadmits
  · obtain ⟨rfl, rfl⟩ := Prod.mk.inj h
    exact kept_expire hs hp hawake
  · obtain ⟨rfl, rfl⟩ := Prod.mk.inj h
    exact kept_admit hs hp hawake hadmits
  · obtain ⟨rfl, rfl⟩ := Prod.mk.inj h
    exact kept_sleep hs hp (Bool.eq_false_iff.mpr hadmits)

lemma kept_release (hs : s.Counts) (hp : Stands i s (.inside mode)) :
    Kept i s (s.release i mode) .idle := by
  cases mode with
  | read =>
    have hmem : i ∈ s.reading := hp.reading.mpr rfl
    refine ⟨⟨?_, hs.waiters, hs.exclusive, fun h => ?_⟩,
      ⟨?_, ?_, ?_, fun h => absurd h (Finset.notMem_empty i)⟩,
      fun j q hj hq => ⟨?_, hq.excluding, hq.queued, fun h => absurd h (Finset.notMem_empty j)⟩⟩
    · change minusOne s.readers = (s.reading.erase i).card
      rw [hs.readers, minusOne_card hmem]
    · change s.reading.erase i = ∅
      rw [hs.alone h, Finset.erase_empty]
    · simp [release, notifyAll]
    · simpa [release, notifyAll] using hp.excluding
    · simpa [release, notifyAll] using hp.queued
    · simpa [release, notifyAll, hj] using hq.reading
  | exclusive =>
    have hmem : i ∈ s.excluding := hp.excluding.mpr rfl
    refine ⟨⟨hs.readers, hs.waiters, ?_, fun h => ?_⟩,
      ⟨?_, ?_, ?_, fun h => absurd h (Finset.notMem_empty i)⟩,
      fun j q hj hq => ⟨hq.reading, ?_, hq.queued, fun h => absurd h (Finset.notMem_empty j)⟩⟩
    · change (s.excluding.erase i).card = 0
      rw [Finset.card_erase_of_mem hmem, hs.exclusive, exclusive_of_mem hs hmem]
      rfl
    · cases h
    · simpa [release, notifyAll] using hp.reading
    · simp [release, notifyAll]
    · simpa [release, notifyAll] using hp.queued
    · simpa [release, notifyAll, hj] using hq.excluding

lemma kept_act (hs : s.Counts) (hp : Stands i s p) (h : act i a s p = some (s', p')) :
    Kept i s s' p' := by
  unfold act at h
  split at h
  · -- acquire
    rename_i mode deadline now
    have hqueued : Kept i s (s.enqueue i mode) (.waiting mode deadline) := kept_enqueue hs hp
    refine hqueued.trans (kept_iteration hqueued.counts hqueued.stands ?_ (Option.some.inj h))
    simpa using hp.awake
  · -- wake
    rename_i mode deadline
    obtain ⟨rfl, rfl⟩ := Prod.mk.inj (Option.some.inj h)
    refine ⟨⟨hs.readers, hs.waiters, hs.exclusive, hs.alone⟩,
      ⟨hp.reading, hp.excluding, hp.queued, fun h => ?_⟩,
      fun j q _ hq => ⟨hq.reading, hq.excluding, hq.queued, fun h => ?_⟩⟩
    · exact absurd h (Finset.notMem_erase i _)
    · exact hq.asleep (Finset.mem_of_mem_erase h)
  · -- retry
    split_ifs at h with hasleep
    exact kept_iteration hs hp hasleep (Option.some.inj h)
  · -- drop
    obtain ⟨rfl, rfl⟩ := Prod.mk.inj (Option.some.inj h)
    exact kept_release hs hp
  · cases h

lemma sound_act : Agents.Sound (act (ι := ι)) Counts Stands := by
  intro i a s p s' p' hs hp h
  have hkept := kept_act hs hp h
  exact ⟨hkept.counts, hkept.stands, hkept.others⟩

end Gate

/-! ## Runs -/

/-- A gate at which nobody has called. -/
def atRest (ι : Type) : Agents ι (Gate ι) Phase := ⟨Gate.default, fun _ => .idle⟩

variable {w w' : Agents ι (Gate ι) Phase}

omit [DecidableEq ι] in
lemma holds_atRest : (atRest ι).Holds Gate.Counts Gate.Stands := by
  refine ⟨⟨rfl, rfl, rfl, fun _ => rfl⟩, fun i => ⟨?_, ?_, ?_, fun h => absurd h (Finset.notMem_empty i)⟩⟩
  · simp [atRest, Gate.default]
  · simp [atRest, Gate.default]
  · simp [atRest, Gate.default]

lemma holds_of_steps (h : Steps (Agents.step Gate.act) (atRest ι) w) : w.Holds Gate.Counts Gate.Stands :=
  Gate.sound_act.steps holds_atRest h

/-- **Whoever excludes is alone, and the counters are right**, whatever threads call, wait, time out and drop,
in any order: no counter is lowered at zero. -/
theorem exclusive_is_alone (h : Steps (Agents.step Gate.act) (atRest ι) w) :
    (∀ i j mode, w.phase i = .inside .exclusive → w.phase j = .inside mode → i = j) ∧
      w.shared.readers = {i | w.phase i = .inside .read}.ncard ∧
      (w.shared.exclusive = true ↔ ∃ i, w.phase i = .inside .exclusive) ∧
      w.shared.exclusiveWaiters = {i | ∃ deadline, w.phase i = .waiting .exclusive deadline}.ncard := by
  have hw := holds_of_steps h
  have hcounts := hw.shared
  refine ⟨fun i j mode hi hj => ?_, ?_, ?_, ?_⟩
  · have hmem := (hw.agent i).excluding.mpr hi
    have hexclusive := Gate.exclusive_of_mem hcounts hmem
    cases mode with
    | read =>
      have hreads := (hw.agent j).reading.mpr hj
      rw [hcounts.alone hexclusive] at hreads
      exact absurd hreads (Finset.notMem_empty j)
    | exclusive =>
      have hone : w.shared.excluding.card ≤ 1 := by
        rw [hcounts.exclusive]
        exact Bool.toNat_le _
      exact Finset.card_le_one.mp hone i hmem j ((hw.agent j).excluding.mpr hj)
  · have hset : {i | w.phase i = .inside .read} = w.shared.reading := by
      ext i
      exact (hw.agent i).reading.symm
    rw [hset, Set.ncard_coe_finset, hcounts.readers]
  · rw [← Bool.toNat_eq_one, ← hcounts.exclusive]
    constructor
    · intro hone
      obtain ⟨i, hi⟩ := Finset.card_eq_one.mp hone
      exact ⟨i, (hw.agent i).excluding.mp (by simp [hi])⟩
    · rintro ⟨i, hi⟩
      rw [hcounts.exclusive, Gate.exclusive_of_mem hcounts ((hw.agent i).excluding.mpr hi)]
      rfl
  · have hset : {i | ∃ deadline, w.phase i = .waiting .exclusive deadline} = w.shared.queued := by
      ext i
      exact (hw.agent i).queued.symm
    rw [hset, Set.ncard_coe_finset, hcounts.waiters]

/-- A writer waits for a reader, and a later read waits for the writer. -/
def queuedBehind : List (ℕ × Act) :=
  [(0, .acquire .read none 0), (1, .acquire .exclusive none 1), (2, .acquire .read (some 9) 2), (0, .drop)]

theorem exclusive_is_alone_queued : ∃ w, run (Agents.step Gate.act) (atRest ℕ)
      (queuedBehind ++ [(1, Act.retry 3), (2, .retry 4)]) = some w ∧
    w.phase 1 = .inside .exclusive ∧ ∀ j mode, w.phase j = .inside mode → 1 = j := by
  have hrun : ∃ w, run (Agents.step Gate.act) (atRest ℕ)
      (queuedBehind ++ [(1, Act.retry 3), (2, .retry 4)]) = some w ∧ w.phase 1 = .inside .exclusive :=
    ⟨_, rfl, rfl⟩
  obtain ⟨w, hw, hphase⟩ := hrun
  exact ⟨w, hw, hphase, fun j mode => (exclusive_is_alone (steps_of_run hw)).1 1 j mode hphase⟩

/-- **No notification is missing.**  Whoever sleeps would not be admitted; and where a call waits and nobody is
inside, some call that waits is awake, and returns as soon as it has the mutex. -/
theorem sleeper_is_refused (h : Steps (Agents.step Gate.act) (atRest ι) w) :
    (∀ i ∈ w.shared.asleep, ∃ mode deadline, w.phase i = .waiting mode deadline ∧
      w.shared.admits mode = false) ∧
    ((∀ i mode, w.phase i ≠ .inside mode) → (∃ i mode deadline, w.phase i = .waiting mode deadline) →
      ∃ i mode deadline, w.phase i = .waiting mode deadline ∧ ∀ now, ∃ w',
        w.step Gate.act (i, .retry now) = some w' ∧
        w'.phase i = if deadline.any (· ≤ now) then .idle else .inside mode) := by
  have hw := holds_of_steps h
  have hcounts := hw.shared
  refine ⟨fun i hi => (hw.agent i).asleep hi, fun hnobody hwaits => ?_⟩
  have hopen : w.shared.exclusive = false := by
    rw [← Bool.not_eq_true, ← Bool.toNat_eq_one, ← hcounts.exclusive]
    intro hone
    obtain ⟨i, hi⟩ := Finset.card_eq_one.mp hone
    exact hnobody i .exclusive ((hw.agent i).excluding.mp (by simp [hi]))
  have hreaders : w.shared.readers = 0 := by
    rw [hcounts.readers, Finset.card_eq_zero, Finset.eq_empty_iff_forall_notMem]
    exact fun i hi => hnobody i .read ((hw.agent i).reading.mp hi)
  -- the call that goes first: an exclusive one if there is one
  obtain ⟨i, mode, deadline, hphase, hadmits⟩ : ∃ i mode deadline, w.phase i = .waiting mode deadline ∧
      w.shared.admits mode = true := by
    by_cases hqueued : w.shared.queued = ∅
    · obtain ⟨i, mode, deadline, hphase⟩ := hwaits
      refine ⟨i, mode, deadline, hphase, ?_⟩
      cases mode with
      | read =>
        refine Gate.admits_read.mpr ⟨hopen, ?_⟩
        rw [hcounts.waiters, hqueued, Finset.card_empty]
      | exclusive => exact Gate.admits_exclusive.mpr ⟨hopen, hreaders⟩
    · obtain ⟨i, hi⟩ := Finset.nonempty_iff_ne_empty.mpr hqueued
      obtain ⟨deadline, hphase⟩ := (hw.agent i).queued.mp hi
      exact ⟨i, .exclusive, deadline, hphase, Gate.admits_exclusive.mpr ⟨hopen, hreaders⟩⟩
  have hawake : i ∉ w.shared.asleep := by
    intro hasleep
    obtain ⟨mode', deadline', hphase', hrefused⟩ := (hw.agent i).asleep hasleep
    obtain ⟨rfl, rfl⟩ := Phase.waiting.inj (hphase.symm.trans hphase')
    rw [hadmits] at hrefused
    cases hrefused
  refine ⟨i, mode, deadline, hphase, fun now => ?_⟩
  have hact : Gate.act i (.retry now) w.shared (w.phase i) =
      some (w.shared.iteration i mode deadline now) := by
    rw [hphase, Gate.act, if_neg hawake]
  refine ⟨_, Agents.step_eq_some.mpr ⟨_, _, hact, rfl⟩, ?_⟩
  simp only [Function.update_self]
  exact Gate.phase_of_admits hadmits

theorem sleeper_is_refused_queued : ∃ w, run (Agents.step Gate.act) (atRest ℕ) queuedBehind = some w ∧
    w.phase 2 = .waiting .read (some 9) ∧ (2 ∈ w.shared.asleep → w.shared.admits .read = false) := by
  have hrun : ∃ w, run (Agents.step Gate.act) (atRest ℕ) queuedBehind = some w ∧
      w.phase 2 = .waiting .read (some 9) := ⟨_, rfl, rfl⟩
  obtain ⟨w, hw, hphase⟩ := hrun
  refine ⟨w, hw, hphase, fun hasleep => ?_⟩
  obtain ⟨mode, deadline, hwaiting, hrefused⟩ := (sleeper_is_refused (steps_of_run hw)).1 2 hasleep
  obtain ⟨rfl, -⟩ := Phase.waiting.inj (hphase.symm.trans hwaiting)
  exact hrefused

/-! ## Reads that come later -/

lemma reading_of_iteration {s : Gate ι} {i : ι} {mode : Mode} {deadline : Option ℕ} {now : ℕ}
    (h : (s.iteration i mode deadline now).2 = .inside .read) : s.exclusiveWaiters = 0 := by
  rw [Gate.iteration] at h
  split_ifs at h with hexpired hadmits
  obtain rfl := Phase.inside.inj h
  exact (Gate.admits_read.mp hadmits).2

/-- Nobody begins to read while an exclusive call waits. -/
lemma reading_of_step {ia : ι × Act} (hwaits : w.shared.exclusiveWaiters ≠ 0)
    (h : w.step Gate.act ia = some w') {j : ι} (hj : w'.phase j = .inside .read) :
    w.phase j = .inside .read := by
  obtain ⟨i, a⟩ := ia
  obtain ⟨s', p', hact, rfl⟩ := Agents.step_eq_some.mp h
  by_cases hne : j = i
  · subst hne
    simp only [Function.update_self] at hj
    subst hj
    unfold Gate.act at hact
    split at hact
    · rename_i mode deadline now _
      have hzero := reading_of_iteration (congrArg Prod.snd (Option.some.inj hact))
      cases mode with
      | read => exact absurd hzero hwaits
      | exclusive => exact absurd hzero (Nat.succ_ne_zero _)
    · cases Option.some.inj hact
    · split_ifs at hact
      exact absurd (reading_of_iteration (congrArg Prod.snd (Option.some.inj hact))) hwaits
    · cases Option.some.inj hact
    · cases hact
  · simpa [hne] using hj

/-- **Reads do not overtake an exclusive call.**  From when it waits until it is admitted or gives up, whoever
reads has read since before. -/
theorem exclusive_not_overtaken (h : Steps (Agents.step Gate.act) (atRest ι) w) {acts : List (ι × Act)}
    {i : ι} (hrun : run (Agents.step Gate.act) w acts = some w')
    (hwaits : Along (Agents.step Gate.act)
      (fun u _ => ∃ deadline, u.phase i = .waiting .exclusive deadline) w acts) :
    ∀ j, w'.phase j = .inside .read → w.phase j = .inside .read := by
  have hw := holds_of_steps h
  have hboth : w'.Holds Gate.Counts Gate.Stands ∧
      ∀ j, w'.phase j = .inside .read → w.phase j = .inside .read := by
    refine hwaits.invariant
      (P := fun u => u.Holds Gate.Counts Gate.Stands ∧
        ∀ j, u.phase j = .inside .read → w.phase j = .inside .read)
      hrun ⟨hw, fun j hj => hj⟩ ?_
    rintro u u' ia - ⟨hu, hbefore⟩ ⟨deadline, hphase⟩ hstep
    refine ⟨Gate.sound_act.step hu hstep, fun j hj => hbefore j (reading_of_step ?_ hstep hj)⟩
    have hmem : i ∈ u.shared.queued := (hu.agent i).queued.mpr ⟨deadline, hphase⟩
    rw [hu.shared.waiters]
    exact Finset.card_ne_zero_of_mem hmem
  exact hboth.2

theorem exclusive_not_overtaken_queued : ∃ w w',
    run (Agents.step Gate.act) (atRest ℕ)
      [(0, .acquire .read none 0), (1, .acquire .exclusive none 1)] = some w ∧
    run (Agents.step Gate.act) w [(2, .acquire .read (some 9) 2)] = some w' ∧
    ∀ j, w'.phase j = .inside .read → w.phase j = .inside .read := by
  have hrun : ∃ w w', run (Agents.step Gate.act) (atRest ℕ)
        [(0, .acquire .read none 0), (1, .acquire .exclusive none 1)] = some w ∧
      run (Agents.step Gate.act) w [(2, .acquire .read (some 9) 2)] = some w' ∧
      w.phase 1 = .waiting .exclusive none := ⟨_, _, rfl, rfl, rfl⟩
  obtain ⟨w, w', hw, hw', hphase⟩ := hrun
  refine ⟨w, w', hw, hw', exclusive_not_overtaken (i := 1) (steps_of_run hw) hw' ?_⟩
  exact Along.cons ⟨none, hphase⟩ fun _ _ => along_nil

end NativeAdmission
end NestWeaver
