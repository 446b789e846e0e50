import NestWeaver.Engine.JobQueueFencing

/-!
# The retry budget

A claim counts an attempt, and a failed attempt or an expired lease dead-letters a row whose attempts
are used up.  Crash recovery does not look at the count: it makes the row pending, and the next claim
is one too many.  As long as no recovery meets a row that runs its last attempt, the claims since the
last reset stay within the budget (`claims_le_maxAttempts`).
-/

set_option linter.all false

namespace NestWeaver
namespace JobQueue

open Transition

variable {t t' : Table} {op : Op} {row : Row} {l : List String}

/-! ## Counting claims -/

/-- A trigger, or a retry by hand, resets the count of the row. -/
def Op.Resets (row : Row) : Op → Prop
  | .upsert _ repoId _ _ _ => row.repoId = repoId ∧
    (row.job.status = .succeeded ∨ row.job.status = .deadLetter ∨ row.job.status = .cancelled)
  | .requeueIfStale _ repoId =>
    row.repoId = repoId ∧ row.job.status = .succeeded ∧ row.job.requeueNeeded = true
  | .resetDeadLetter _ repoId => row.repoId = repoId ∧ row.job.status = .deadLetter
  | .resetDeadLetterById _ id => row.id = id ∧ row.job.status = .deadLetter
  | _ => False

instance (row : Row) (op : Op) : Decidable (op.Resets row) := by
  cases op <;> unfold Op.Resets <;> infer_instance

/-- The claims of a row since its count was reset, less those that were deferred. -/
def charge (row : Row) (l : List String) : Op → List String
  | .claim _ _ _ id _ token => if row.id = id then token :: l else l
  | .defer _ id claimedBy => if row.Holds id claimedBy then claimedBy.elim l l.erase else l
  | op => if op.Resets row then [] else l

/-- A table, with the claims that count for each row. -/
structure Audited where
  table : Table
  ledger : ℕ → List String

def Audited.empty : Audited := ⟨.empty, fun _ => []⟩

/-- A statement, and what it does to the counted claims. -/
def auditedStep (s : Audited) (op : Op) : Option Audited :=
  (step s.table op).map fun t => ⟨t, fun id =>
    match s.table.rows.find? (·.id = id) with
    | some row => charge row (s.ledger id) op
    | none => []⟩

/-- The statement takes back a row that runs, whatever its attempts. -/
def Op.Recovers (row : Row) : Op → Prop
  | .recoverStale now timeoutSecs => row.job.Stale now timeoutSecs
  | .recoverAllRunningAtStartup _ => row.job.status = .running
  | _ => False

instance (row : Row) (op : Op) : Decidable (op.Recovers row) := by
  cases op <;> unfold Op.Recovers <;> infer_instance

/-- No recovery takes back a row that runs its last attempt. -/
def KeepsBudget (s : Audited) (op : Op) : Prop :=
  ∀ row ∈ s.table.rows, op.Recovers row → ¬row.job.exhausted

instance (s : Audited) (op : Op) : Decidable (KeepsBudget s op) :=
  inferInstanceAs (Decidable (∀ row ∈ s.table.rows, _))

/-! ## The invariant -/

/-- The attempts of a row count its claims, and one is left while the row waits. -/
structure Budgeted (row : Row) (l : List String) : Prop where
  count : l.length = row.job.attempt
  token : row.job.status = .running → ∃ token ∈ l, row.job.claimedBy = some token
  within : row.job.attempt ≤ row.job.maxAttempts
  spare : row.job.status = .pending ∨ row.job.status = .failed →
    row.job.attempt < row.job.maxAttempts
  positive : 0 < row.job.maxAttempts

/-- The budget of a row whose columns are those of another, or the count is reset. -/
lemma Budgeted.congr {row' : Row} (h : Budgeted row l) (hattempt : row'.job.attempt = row.job.attempt)
    (hmax : row'.job.maxAttempts = row.job.maxAttempts)
    (hrunning : row'.job.status = .running →
      row.job.status = .running ∧ row'.job.claimedBy = row.job.claimedBy)
    (hspare : row'.job.status = .pending ∨ row'.job.status = .failed →
      row.job.attempt < row.job.maxAttempts) : Budgeted row' l where
  count := by rw [hattempt, h.count]
  token hrun := by
    obtain ⟨hbefore, hclaimed⟩ := hrunning hrun
    rw [hclaimed]
    exact h.token hbefore
  within := by rw [hattempt, hmax]; exact h.within
  spare hwaits := by rw [hattempt, hmax]; exact hspare hwaits
  positive := by rw [hmax]; exact h.positive

lemma Budgeted.reset {row' : Row} (h : Budgeted row l) (hattempt : row'.job.attempt = 0)
    (hmax : row'.job.maxAttempts = row.job.maxAttempts) (hstatus : row'.job.status = .pending) :
    Budgeted row' [] where
  count := hattempt.symm
  token hrun := by rw [hstatus] at hrun; cases hrun
  within := by rw [hattempt]; exact Nat.zero_le _
  spare _ := by rw [hattempt, hmax]; exact h.positive
  positive := by rw [hmax]; exact h.positive

/-- A statement with a condition keeps the budget if it does where the condition holds. -/
lemma Budgeted.ite (h : Budgeted row l) {c : Prop} [Decidable c] {job : Job}
    (hjob : c → Budgeted { row with job := job } l) :
    Budgeted { row with job := if c then job else row.job } l := by
  split_ifs with hc
  · exact hjob hc
  · exact h

/-- So does one that also changes what is counted. -/
lemma Budgeted.charged (h : Budgeted row l) {c d : Prop} [Decidable c] [Decidable d] {job : Job}
    {l' : List String} (hcd : c ↔ d) (hjob : c → Budgeted { row with job := job } l') :
    Budgeted { row with job := if c then job else row.job } (if d then l' else l) := by
  by_cases hc : c
  · rw [if_pos hc, if_pos (hcd.mp hc)]
    exact hjob hc
  · rw [if_neg hc, if_neg (mt hcd.mpr hc)]
    exact h

/-- A trigger resets the count of a row that has ended, and leaves that of the others. -/
lemma Budgeted.upsert (h : Budgeted row l) (now : ℤ) (trigger : JobTrigger) (branch : Option String) :
    Budgeted { row with job := row.job.upsert now trigger branch }
      (if row.job.status = .succeeded ∨ row.job.status = .deadLetter ∨ row.job.status = .cancelled
        then [] else l) := by
  by_cases hended : row.job.status = .succeeded ∨ row.job.status = .deadLetter ∨
      row.job.status = .cancelled
  · rw [if_pos hended]
    exact h.reset (if_pos hended) rfl (if_pos (.inr hended))
  · rw [if_neg hended]
    refine h.congr (if_neg hended) rfl (fun hrunning => ?_) fun hwaits => h.spare ?_
    · simp only [Job.upsert] at hrunning
      split_ifs at hrunning
      exact ⟨hrunning, rfl⟩
    · simp only [Job.upsert] at hwaits
      split_ifs at hwaits with hwaiting
      · exact hwaiting.resolve_right hended
      · exact hwaits

/-- A claim uses one attempt. -/
lemma Budgeted.claim (h : Budgeted row l) (hpending : row.job.status = .pending) (now leaseSecs : ℤ)
    (token : String) : Budgeted { row with job := row.job.claim now leaseSecs token } (token :: l) where
  count := by
    rw [List.length_cons, h.count]
    rfl
  token _ := ⟨token, List.mem_cons_self, rfl⟩
  within := h.spare (.inl hpending)
  spare hwaits := by simp [Job.claim] at hwaits
  positive := h.positive

/-- A claim that is deferred is given back. -/
lemma Budgeted.defer (h : Budgeted row l) {id : ℕ} {claimedBy : Option String}
    (hholds : row.Holds id claimedBy) (now : ℤ) :
    Budgeted { row with job := row.job.defer now } (claimedBy.elim l l.erase) := by
  obtain ⟨token, hmem, hclaimed⟩ := h.token hholds.2.1
  obtain rfl : claimedBy = some token := hholds.2.2.symm.trans hclaimed
  have hcount := h.count
  have hwithin := h.within
  have hpos := List.length_pos_of_mem hmem
  have hless : row.job.attempt - 1 < row.job.maxAttempts := by omega
  refine ⟨?_, fun hrunning => ?_, Nat.le_of_lt hless, fun _ => hless, h.positive⟩
  · change (l.erase token).length = row.job.attempt - 1
    rw [List.length_erase_of_mem hmem, hcount]
  · cases hrunning

/-- A failed attempt leaves one more, or ends the row. -/
lemma Budgeted.fail (h : Budgeted row l) (now : ℤ) (error : String) (isPoison : Bool) :
    Budgeted { row with job := row.job.fail now error isPoison } l := by
  rw [Job.fail]
  split_ifs with hdead
  · exact h.congr rfl rfl (by simp) (by simp)
  · exact h.congr rfl rfl (by simp) fun _ => Nat.not_le.mp fun hle => hdead (.inr hle)

/-- Crash recovery keeps the budget of a row that has an attempt left. -/
lemma Budgeted.recover (h : Budgeted row l) (hspare : ¬row.job.exhausted) (now : ℤ) :
    Budgeted { row with job := row.job.recover now } l :=
  h.congr rfl rfl (by simp [Job.recover]) fun _ => Nat.not_le.mp hspare

/-- A lease that expires dead-letters an exhausted row. -/
lemma Budgeted.reap (h : Budgeted row l) (clock : ℤ) :
    Budgeted { row with job := row.job.reap clock } l := by
  refine h.congr rfl rfl (fun hrunning => absurd hrunning (reap_status_ne clock row.job)) fun hwaits => ?_
  by_contra hle
  have hdead : (row.job.reap clock).status = .deadLetter := if_pos (Nat.not_lt.mp hle)
  rw [hdead] at hwaits
  obtain hwaits | hwaits := hwaits <;> cases hwaits

/-- One statement keeps the budget of a row. -/
lemma Budgeted.set (h : Budgeted row l)
    (hclaim : ∀ token, op.ClaimsRow row.id token → row.job.status = .pending)
    (hrecover : op.Recovers row → ¬row.job.exhausted) :
    Budgeted (row.set op) (charge row l op) := by
  cases op with
  | upsert now repoId repoUrl trigger branch =>
    simp only [Row.set, Op.change, charge, Op.Resets]
    by_cases hrepo : row.repoId = repoId
    · subst hrepo
      simp only [true_and, if_true]
      exact h.upsert now trigger branch
    · simp only [hrepo, false_and, if_false]
      exact h
  | claim now debounceSecs leaseSecs id repoId token =>
    exact h.charged Iff.rfl fun hid => h.claim (hclaim token ⟨hid.symm, rfl⟩) now leaseSecs token
  | defer now id claimedBy => exact h.charged Iff.rfl fun hholds => h.defer hholds now
  | complete now id repoId claimedBy => exact h.ite fun _ => h.congr rfl rfl (by simp) (by simp)
  | requeueIfStale now repoId => exact h.charged Iff.rfl fun _ => h.reset rfl rfl rfl
  | cancelRepo now repoId => exact h.ite fun _ => h.congr rfl rfl (by simp) (by simp)
  | setBranch now repoId branch =>
    exact h.ite fun _ => h.congr rfl rfl (fun hrunning => ⟨hrunning, rfl⟩) h.spare
  | clearBranch now repoId =>
    exact h.ite fun _ => h.congr rfl rfl (fun hrunning => ⟨hrunning, rfl⟩) h.spare
  | fail now id claimedBy error isPoison => exact h.ite fun _ => h.fail now error isPoison
  | recoverStale now timeoutSecs => exact h.ite fun hstale => h.recover (hrecover hstale) now
  | recoverAllRunningAtStartup now => exact h.ite fun hrunning => h.recover (hrecover hrunning) now
  | reapExpiredLeases clock now => exact h.ite fun _ => h.reap clock
  | resetDeadLetter now repoId => exact h.charged Iff.rfl fun _ => h.reset rfl rfl rfl
  | resetDeadLetterById now id => exact h.charged Iff.rfl fun _ => h.reset rfl rfl rfl
  | dismissDeadLetter id => exact h

/-! ## Runs -/

def Audited.Within (s : Audited) : Prop := ∀ row ∈ s.table.rows, Budgeted row (s.ledger row.id)

lemma find?_id (t : Table) (hrow : row ∈ t.rows) : t.rows.find? (·.id = row.id) = some row := by
  have hsome : (t.rows.find? (·.id = row.id)).isSome := by
    rw [List.find?_isSome]
    exact ⟨row, hrow, by simp⟩
  obtain ⟨other, hother⟩ := Option.isSome_iff_exists.mp hsome
  have hid : other.id = row.id := by simpa using List.find?_some hother
  rw [hother, List.inj_on_of_nodup_map t.ids (List.mem_of_find?_eq_some hother) hrow hid]

lemma find?_nextId (t : Table) : t.rows.find? (·.id = t.nextId) = none := by
  rw [List.find?_eq_none]
  intro row hrow hid
  have hle := le_foldr_max (List.mem_map_of_mem (f := (·.id)) hrow)
  have hnext : row.id = t.nextId := by simpa using hid
  rw [hnext, Table.nextId] at hle
  omega

/-- A row that is claimed was pending. -/
lemma pending_of_claims (h : step t op = some t') (hrow : row ∈ t.rows) {token : String}
    (hclaims : op.ClaimsRow row.id token) : row.job.status = .pending := by
  cases op with
  | claim now debounceSecs leaseSecs id repoId token =>
    rw [step] at h
    split_ifs at h with hnext
    obtain ⟨row', hrow', ⟨hid, -, heligible⟩, -⟩ := hnext
    obtain rfl := List.inj_on_of_nodup_map t.ids hrow' hrow (hid.trans hclaims.1)
    exact heligible.1
  | _ => cases hclaims

lemma Audited.Within.step {s s' : Audited} (h : s.Within) (hstep : auditedStep s op = some s')
    (hkeeps : KeepsBudget s op) : s'.Within := by
  obtain ⟨t, ht, rfl⟩ := Option.map_eq_some_iff.mp hstep
  intro row hrow
  obtain ⟨old, hold, rfl⟩ | ⟨now, repoUrl, trigger, branch, -, hid, hnew, -⟩ := step_row ht hrow
  · change Budgeted (old.set op) (match s.table.rows.find? (·.id = old.id) with
      | some row => charge row (s.ledger old.id) op
      | none => [])
    rw [find?_id s.table hold]
    exact (h old hold).set (fun token => pending_of_claims ht hold) (hkeeps old hold)
  · change Budgeted row (match s.table.rows.find? (·.id = row.id) with
      | some r => charge r (s.ledger row.id) op
      | none => [])
    rw [hid, find?_nextId s.table]
    have hattempt : row.job.attempt = 0 := by rw [hnew]; rfl
    have hmax : row.job.maxAttempts = 4 := by rw [hnew]; rfl
    refine ⟨hattempt.symm, fun hrunning => ?_, by omega, fun _ => by omega, by omega⟩
    rw [hnew] at hrunning
    cases hrunning

/-- **The retry budget.**  In a run in which no recovery takes back a row that runs its last attempt,
the claims of a row since its count was reset, less those that were deferred, are within its budget.
-/
theorem claims_le_maxAttempts {ops : List Op} {s : Audited}
    (hrun : run (guarded auditedStep KeepsBudget) .empty ops = some s) :
    ∀ row ∈ s.table.rows, (s.ledger row.id).length ≤ row.job.maxAttempts := by
  have hempty : Audited.empty.Within := fun row hrow => by cases hrow
  have hwithin : s.Within := by
    refine (steps_of_run hrun).invariant hempty fun u op u' hu hstep => ?_
    obtain ⟨hkeeps, hstep⟩ := guarded_eq_some.mp hstep
    exact hu.step hstep hkeeps
  intro row hrow
  rw [(hwithin row hrow).count]
  exact (hwithin row hrow).within

/-- Claims that each end with the daemon. -/
def crashes : ℕ → List Op
  | 0 => []
  | n + 1 => .claim 1 0 1800 1 "repo" (String.ofList (List.replicate n 'f')) ::
    .recoverAllRunningAtStartup 1 :: crashes n

/-- Three crashes, and a fourth claim. -/
theorem claims_le_maxAttempts_threeCrashes : ∃ s, run (guarded auditedStep KeepsBudget) .empty
    (.upsert 0 "repo" "url" .webhook none :: (crashes 4).take 7) = some s ∧
      ∀ row ∈ s.table.rows, (s.ledger row.id).length ≤ row.job.maxAttempts := by
  have hsome : (run (guarded auditedStep KeepsBudget) .empty
      (.upsert 0 "repo" "url" .webhook none :: (crashes 4).take 7)).isSome := by decide +kernel
  obtain ⟨s, hs⟩ := Option.isSome_iff_exists.mp hsome
  exact ⟨s, hs, claims_le_maxAttempts hs⟩

/-- The fifth claim is over the budget. -/
theorem crashes_exceed : ¬∀ ops s, run auditedStep .empty ops = some s →
    ∀ row ∈ s.table.rows, (s.ledger row.id).length ≤ row.job.maxAttempts := by
  intro h
  have hfive : (run auditedStep .empty (.upsert 0 "repo" "url" .webhook none :: crashes 5)).any
      fun s => ∃ row ∈ s.table.rows, row.job.maxAttempts < (s.ledger row.id).length := by
    decide +kernel
  obtain ⟨s, hs, hover⟩ := (Option.any_eq_true _ _).mp hfive
  obtain ⟨row, hrow, hlt⟩ := of_decide_eq_true hover
  exact absurd (h _ s hs row hrow) (Nat.not_le.mpr hlt)

end JobQueue
end NestWeaver
