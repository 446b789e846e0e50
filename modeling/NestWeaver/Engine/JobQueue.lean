import Mathlib.Data.Int.Notation
import Mathlib.Data.List.Nodup
import NestWeaver.Framework.Transition

/-!
# The job queue

The queue of indexing jobs of `crates/nestweaver-engine/src/jobs.rs`: a table with one row for each
repository, and the statements that change it.  A statement is given by what it does to a row, and
the time that it reads from the clock is an argument.

A claim takes one of the eligible rows that come first; which of several is left open.
-/

set_option linter.all false

namespace NestWeaver
namespace JobQueue

/-! ## Rows -/

/-- What triggered an indexing job. -/
inductive JobTrigger
  | unindexed | webhook | poll | scheduled | retry
  deriving DecidableEq, Repr

/-- Lower is higher priority. -/
def JobTrigger.priority : JobTrigger → ℕ
  | .unindexed => 0
  | .webhook => 1
  | .poll => 2
  | .scheduled => 3
  | .retry => 4

/-- The status column.  No statement writes `failed`. -/
inductive JobStatus
  | pending | running | succeeded | failed | deadLetter | cancelled
  deriving DecidableEq, Repr

/-- The columns that statements change. -/
structure Job where
  repoUrl : String
  trigger : JobTrigger
  priority : ℕ
  status : JobStatus
  attempt : ℕ
  maxAttempts : ℕ
  errorMsg : Option String
  branch : Option String
  requeueNeeded : Bool
  /-- The token of the claim. -/
  claimedBy : Option String
  leaseExpiresAt : Option ℤ
  createdAt : ℤ
  updatedAt : ℤ
  startedAt : Option ℤ
  completedAt : Option ℤ
  deriving DecidableEq, Repr

structure Row where
  id : ℕ
  repoId : String
  job : Job
  deriving DecidableEq, Repr

/-- The table: its primary key, and one row for each repository. -/
structure Table where
  rows : List Row
  ids : (rows.map (·.id)).Nodup
  repos : (rows.map (·.repoId)).Nodup

/-! ## Statements -/

/-- The statements on the table.  The first argument of those that read the clock is the time. -/
inductive Op
  | upsert (now : ℤ) (repoId repoUrl : String) (trigger : JobTrigger) (branch : Option String)
  /-- A claim of this row, with a fresh token. -/
  | claim (now debounceSecs leaseSecs : ℤ) (id : ℕ) (repoId token : String)
  | complete (now : ℤ) (id : ℕ) (repoId : String) (claimedBy : Option String)
  | requeueIfStale (now : ℤ) (repoId : String)
  | cancelRepo (now : ℤ) (repoId : String)
  | setBranch (now : ℤ) (repoId branch : String)
  | clearBranch (now : ℤ) (repoId : String)
  | fail (now : ℤ) (id : ℕ) (claimedBy : Option String) (error : String) (isPoison : Bool)
  | defer (now : ℤ) (id : ℕ) (claimedBy : Option String)
  | recoverStale (now timeoutSecs : ℤ)
  | recoverAllRunningAtStartup (now : ℤ)
  /-- The reaper is told what time it is. -/
  | reapExpiredLeases (clock now : ℤ)
  | resetDeadLetter (now : ℤ) (repoId : String)
  | resetDeadLetterById (now : ℤ) (id : ℕ)
  | dismissDeadLetter (id : ℕ)
  deriving DecidableEq, Repr

/-- `ON CONFLICT (repo_id) DO UPDATE`. -/
def Job.upsert (now : ℤ) (trigger : JobTrigger) (branch : Option String) (job : Job) : Job :=
  let waiting := job.status = .pending ∨ job.status = .failed
  let ended := job.status = .succeeded ∨ job.status = .deadLetter ∨ job.status = .cancelled
  { job with
    priority :=
      if waiting then min trigger.priority job.priority
      else if ended then trigger.priority
      else if job.status = .running then min trigger.priority job.priority
      else job.priority
    trigger :=
      if waiting ∧ trigger.priority < job.priority then trigger
      else if ended then trigger
      else job.trigger
    status := if waiting ∨ ended then .pending else job.status
    attempt := if ended then 0 else job.attempt
    branch := if branch.isSome then branch else job.branch
    requeueNeeded := if job.status = .running then true else job.requeueNeeded
    updatedAt := now }

/-- A row as it is inserted, with the defaults of the other columns. -/
def Job.new (now : ℤ) (repoUrl : String) (trigger : JobTrigger) (branch : Option String) : Job where
  repoUrl := repoUrl
  trigger := trigger
  priority := trigger.priority
  status := .pending
  attempt := 0
  maxAttempts := 4
  errorMsg := none
  branch := branch
  requeueNeeded := false
  claimedBy := none
  leaseExpiresAt := none
  createdAt := now
  updatedAt := now
  startedAt := none
  completedAt := none

def Job.claim (now leaseSecs : ℤ) (token : String) (job : Job) : Job :=
  { job with
    status := .running
    startedAt := some now
    attempt := job.attempt + 1
    requeueNeeded := false
    claimedBy := some token
    leaseExpiresAt := some (now + leaseSecs)
    updatedAt := now }

/-- The guard of a statement that ends a claim. -/
def Row.Holds (row : Row) (id : ℕ) (claimedBy : Option String) : Prop :=
  row.id = id ∧ row.job.status = .running ∧ row.job.claimedBy = claimedBy

instance (row : Row) (id : ℕ) (claimedBy : Option String) : Decidable (row.Holds id claimedBy) :=
  inferInstanceAs (Decidable (_ ∧ _))

def Job.exhausted (job : Job) : Prop := job.maxAttempts ≤ job.attempt

instance (job : Job) : Decidable job.exhausted := inferInstanceAs (Decidable (_ ≤ _))

def Job.fail (now : ℤ) (error : String) (isPoison : Bool) (job : Job) : Job :=
  if isPoison ∨ job.exhausted then
    { job with
      status := .deadLetter
      errorMsg := some error
      completedAt := some now
      updatedAt := now }
  else
    { job with
      status := .pending
      trigger := .retry
      priority := 4
      errorMsg := some error
      updatedAt := now }

def Job.defer (now : ℤ) (job : Job) : Job :=
  { job with
    status := .pending
    attempt := job.attempt - 1
    claimedBy := none
    leaseExpiresAt := none
    startedAt := none
    createdAt := now
    updatedAt := now }

/-- Crash recovery leaves the claim's token and its lease where they are. -/
def Job.recover (now : ℤ) (job : Job) : Job :=
  { job with status := .pending, startedAt := none, updatedAt := now }

def Job.reap (clock : ℤ) (job : Job) : Job :=
  { job with
    status := if job.exhausted then .deadLetter else .pending
    errorMsg := if job.exhausted then some "lease expired: max attempts exceeded" else job.errorMsg
    completedAt := if job.exhausted then some clock else job.completedAt
    startedAt := if job.exhausted then job.startedAt else none
    claimedBy := none
    leaseExpiresAt := none
    updatedAt := clock }

def Job.reset (now : ℤ) (job : Job) : Job :=
  { job with
    status := .pending
    attempt := 0
    errorMsg := none
    startedAt := none
    completedAt := none
    updatedAt := now }

/-- The row ran for longer than the timeout. -/
def Job.Stale (now timeoutSecs : ℤ) (job : Job) : Prop :=
  job.status = .running ∧ ∃ started ∈ job.startedAt, started + timeoutSecs ≤ now

/-- The lease of the row has elapsed. -/
def Job.Expired (now : ℤ) (job : Job) : Prop :=
  job.status = .running ∧ ∃ expires ∈ job.leaseExpiresAt, expires < now

instance (now timeoutSecs : ℤ) (job : Job) : Decidable (job.Stale now timeoutSecs) :=
  inferInstanceAs (Decidable (_ ∧ _))

instance (now : ℤ) (job : Job) : Decidable (job.Expired now) :=
  inferInstanceAs (Decidable (_ ∧ _))

/-- What a statement does to a row. -/
def Op.change (row : Row) : Op → Job
  | .upsert now repoId _ trigger branch =>
    if row.repoId = repoId then row.job.upsert now trigger branch else row.job
  | .claim now _ leaseSecs id _ token =>
    if row.id = id then row.job.claim now leaseSecs token else row.job
  | .complete now id repoId claimedBy =>
    if row.Holds id claimedBy ∧ row.repoId = repoId then
      { row.job with status := .succeeded, completedAt := some now }
    else row.job
  | .requeueIfStale now repoId =>
    if row.repoId = repoId ∧ row.job.status = .succeeded ∧ row.job.requeueNeeded = true then
      { row.job with status := .pending, attempt := 0, requeueNeeded := false, updatedAt := now }
    else row.job
  | .cancelRepo now repoId =>
    if row.repoId = repoId ∧ row.job.status ≠ .cancelled then
      { row.job with status := .cancelled, updatedAt := now }
    else row.job
  | .setBranch now repoId branch =>
    if row.repoId = repoId then { row.job with branch := some branch, updatedAt := now } else row.job
  | .clearBranch now repoId =>
    if row.repoId = repoId then { row.job with branch := none, updatedAt := now } else row.job
  | .fail now id claimedBy error isPoison =>
    if row.Holds id claimedBy then row.job.fail now error isPoison else row.job
  | .defer now id claimedBy => if row.Holds id claimedBy then row.job.defer now else row.job
  | .recoverStale now timeoutSecs =>
    if row.job.Stale now timeoutSecs then row.job.recover now else row.job
  | .recoverAllRunningAtStartup now =>
    if row.job.status = .running then row.job.recover now else row.job
  | .reapExpiredLeases clock now => if row.job.Expired now then row.job.reap clock else row.job
  | .resetDeadLetter now repoId =>
    if row.repoId = repoId ∧ row.job.status = .deadLetter then row.job.reset now else row.job
  | .resetDeadLetterById now id =>
    if row.id = id ∧ row.job.status = .deadLetter then row.job.reset now else row.job
  | .dismissDeadLetter _ => row.job

/-! ## The table -/

def Row.set (row : Row) (op : Op) : Row := { row with job := op.change row }

def Table.empty : Table := ⟨[], List.nodup_nil, List.nodup_nil⟩

/-- `UPDATE`. -/
def Table.update (t : Table) (op : Op) : Table where
  rows := t.rows.map (·.set op)
  ids := by rw [List.map_map]; exact t.ids
  repos := by rw [List.map_map]; exact t.repos

/-- The primary key of an inserted row. -/
def Table.nextId (t : Table) : ℕ := (t.rows.map (·.id)).foldr max 0 + 1

lemma le_foldr_max {n : ℕ} {l : List ℕ} (h : n ∈ l) : n ≤ l.foldr max 0 := by
  induction l with
  | nil => cases h
  | cons m l ih =>
    rcases List.mem_cons.mp h with rfl | h
    · exact Nat.le_max_left _ _
    · exact Nat.le_trans (ih h) (Nat.le_max_right _ _)

/-- `INSERT` of a row for a repository that has none. -/
def Table.insert (t : Table) (repoId : String) (job : Job) (h : ∀ row ∈ t.rows, row.repoId ≠ repoId) :
    Table where
  rows := t.rows ++ [⟨t.nextId, repoId, job⟩]
  ids := by
    rw [List.map_append, List.nodup_append]
    refine ⟨t.ids, List.nodup_singleton _, fun n hn m hm heq => ?_⟩
    obtain rfl := List.mem_singleton.mp hm
    have hle := le_foldr_max hn
    simp only [heq, Table.nextId] at hle
    omega
  repos := by
    rw [List.map_append, List.nodup_append]
    refine ⟨t.repos, List.nodup_singleton _, fun r hr s hs heq => ?_⟩
    obtain rfl := List.mem_singleton.mp hs
    obtain ⟨row, hrow, rfl⟩ := List.mem_map.mp hr
    exact h row hrow heq

/-- `DELETE` of a dead-lettered row. -/
def Table.dismiss (t : Table) (id : ℕ) : Table where
  rows := t.rows.filter fun row => ¬(row.id = id ∧ row.job.status = .deadLetter)
  ids := t.ids.sublist (List.filter_sublist.map _)
  repos := t.repos.sublist (List.filter_sublist.map _)

/-- A pending job outside of its debounce window. -/
def Job.Eligible (now debounceSecs : ℤ) (job : Job) : Prop :=
  job.status = .pending ∧ job.updatedAt + debounceSecs ≤ now

instance (now debounceSecs : ℤ) (job : Job) : Decidable (job.Eligible now debounceSecs) :=
  inferInstanceAs (Decidable (_ ∧ _))

/-- `ORDER BY priority ASC, created_at ASC`. -/
def Job.Before (job job' : Job) : Prop :=
  job.priority < job'.priority ∨ (job.priority = job'.priority ∧ job.createdAt ≤ job'.createdAt)

instance (job job' : Job) : Decidable (job.Before job') := inferInstanceAs (Decidable (_ ∨ _))

/-- The row can be the next that is claimed. -/
def Table.Next (t : Table) (now debounceSecs : ℤ) (id : ℕ) (repoId : String) : Prop :=
  ∃ row ∈ t.rows, (row.id = id ∧ row.repoId = repoId ∧ row.job.Eligible now debounceSecs) ∧
    ∀ other ∈ t.rows, other.job.Eligible now debounceSecs → row.job.Before other.job

instance (t : Table) (now debounceSecs : ℤ) (id : ℕ) (repoId : String) :
    Decidable (t.Next now debounceSecs id repoId) := by
  unfold Table.Next
  infer_instance

/-- One statement.  A claim is taken of a row that comes next. -/
def step (t : Table) : Op → Option Table
  | .upsert now repoId repoUrl trigger branch =>
    if h : ∀ row ∈ t.rows, row.repoId ≠ repoId then
      some (t.insert repoId (Job.new now repoUrl trigger branch) h)
    else some (t.update (.upsert now repoId repoUrl trigger branch))
  | .claim now debounceSecs leaseSecs id repoId token =>
    if t.Next now debounceSecs id repoId then
      some (t.update (.claim now debounceSecs leaseSecs id repoId token))
    else none
  | .dismissDeadLetter id => some (t.dismiss id)
  | op => some (t.update op)

end JobQueue
end NestWeaver
