import Mathlib.Algebra.Ring.Nat
import Mathlib.Data.Finmap
import NestWeaver.Engine.Publication.Slot

/-!
# The journal of a publication rebuild

`crates/nestweaver-engine/src/publication_operation.rs`: the state of an operation and the updates that a
checkpoint may make to it.
-/

set_option linter.all false

namespace NestWeaver
namespace PublicationRoot

open Checked

/-! ## States -/

inductive PublicationPhase
  | planned | graph | textSearch | regex | embeddings | metadata | validating | ready | activating
  | activated | cancelled
  deriving DecidableEq, Repr

namespace PublicationPhase

/-- The derived `Debug`. -/
def debug : PublicationPhase → String
  | planned => "Planned"
  | graph => "Graph"
  | textSearch => "TextSearch"
  | regex => "Regex"
  | embeddings => "Embeddings"
  | metadata => "Metadata"
  | validating => "Validating"
  | ready => "Ready"
  | activating => "Activating"
  | activated => "Activated"
  | cancelled => "Cancelled"

def isTerminal (phase : PublicationPhase) : Bool := phase = activated ∨ phase = cancelled

def successor : PublicationPhase → Option PublicationPhase
  | planned => some graph
  | graph => some textSearch
  | textSearch => some regex
  | regex => some embeddings
  | embeddings => some metadata
  | metadata => some validating
  | validating => some ready
  | ready => some activating
  | activating => some activated
  | activated | cancelled => none

/-- `phase_accepts_rescope`: the slot is still being staged. -/
def acceptsRescope : PublicationPhase → Bool
  | planned | graph | textSearch | regex | embeddings | metadata | validating => true
  | ready | activating | activated | cancelled => false

end PublicationPhase

structure PublicationOperationPlan where
  operationUuid : String
  brainUuid : String
  targetPublicationUuid : String
  expectedCurrentPublicationUuid : Option String
  inputFingerprint : String
  producerVersion : String
  publicationFormatVersion : ℕ
  createdUnixMillis : ℕ
  deriving DecidableEq

structure PublicationProgress where
  completed : ℕ
  total : Option ℕ
  message : String
  deriving DecidableEq

structure PublicationFailure where
  phase : PublicationPhase
  code : String
  message : String
  retryable : Bool
  deriving DecidableEq

structure PublicationOperationState where
  stateVersion : ℕ
  revision : ℕ
  plan : PublicationOperationPlan
  phase : PublicationPhase
  cancelRequested : Bool
  progress : Option PublicationProgress
  completedArtifacts : Finmap fun _ : String => String
  validatedManifestBlake3 : Option String
  failure : Option PublicationFailure
  updatedUnixMillis : ℕ
  deriving DecidableEq

/-- `OPERATION_STATE_VERSION`. -/
def operationStateVersion : ℕ := 1

def u64Max : ℕ := 2 ^ 64 - 1

section

variable {υ β : Type} [DecidableEq υ] (lib : Libraries υ β)

/-! ## Validation -/

/-- `parse_non_nil_uuid`. -/
def parseNonNilUuid (label value : String) : Except String υ :=
  parseUuidAs lib ("invalid " ++ label) ": nil UUID is not an identity" value

def uuidEqual (left right : String) : Except String Bool := do
  return decide ((← lib.parseStr left) = (← lib.parseStr right))

lemma uuidEqual_text (u v : υ) : uuidEqual lib (lib.text u) (lib.text v) = .ok (decide (u = v)) := by
  rw [uuidEqual, lib.parse_text, lib.parse_text]
  rfl

/-- The target is not the expected incumbent. -/
def expectsOther (target : υ) : Option String → Except String Unit
  | none => .ok ()
  | some expected => do
    let expected ← parseNonNilUuid lib "expected_current_publication_uuid" expected
    bailIf (expected = target) "target publication must differ from the expected incumbent"

def PublicationOperationPlan.validate (plan : PublicationOperationPlan) : Except String Unit := do
  let _ ← parseNonNilUuid lib "operation_uuid" plan.operationUuid
  let _ ← parseNonNilUuid lib "brain_uuid" plan.brainUuid
  let target ← parseNonNilUuid lib "target_publication_uuid" plan.targetPublicationUuid
  expectsOther lib target plan.expectedCurrentPublicationUuid
  bailIf (plan.inputFingerprint = "" ∨ plan.producerVersion = "" ∨ plan.publicationFormatVersion = 0)
    "publication plan requires input fingerprint, producer version, and non-zero format version"

def validateRelativePath (path : String) : Except String Unit :=
  bailIf (path = "" ∨ isUnsafePath path) ("unsafe publication artifact path " ++ path)

def validateDigest (value : String) : Except String Unit :=
  bailIf (!isDigest value) "expected a 64-character hexadecimal BLAKE3 digest"

def PublicationOperationState.new (plan : PublicationOperationPlan) :
    Except String PublicationOperationState := do
  plan.validate lib
  return {
    stateVersion := operationStateVersion
    revision := 0
    plan
    phase := .planned
    cancelRequested := false
    progress := none
    completedArtifacts := ∅
    validatedManifestBlake3 := none
    failure := none
    updatedUnixMillis := plan.createdUnixMillis }

/-- The time at which the plan was made is not compared. -/
def PublicationOperationState.resumableWith (state : PublicationOperationState)
    (requested : PublicationOperationPlan) : Except String Unit := do
  requested.validate lib
  bailIf state.phase.isTerminal ("publication operation is terminal in phase " ++ state.phase.debug)
  bailIf ({ requested with createdUnixMillis := state.plan.createdUnixMillis } ≠ state.plan)
    ("publication operation is incompatible with the requested resume; discard it explicitly or resume " ++
      "with the original inputs")

def validateUpdate (incumbent next : PublicationOperationState) : Except String Unit := do
  next.plan.validate lib
  bailIf (next.stateVersion ≠ operationStateVersion ∨ next.plan ≠ incumbent.plan ∨
      next.revision ≠ incumbent.revision ∨ next.updatedUnixMillis ≠ incumbent.updatedUnixMillis)
    "publication checkpoint attempted to rewrite immutable journal fields"
  bailIf (incumbent.phase.isTerminal ∧ next ≠ incumbent) "terminal publication operations are immutable"
  bailIf (next.phase ≠ incumbent.phase ∧ incumbent.phase.successor ≠ some next.phase ∧
      ¬(next.phase = .cancelled ∧ next.cancelRequested))
    ("invalid publication journal phase transition " ++ incumbent.phase.debug ++ " -> " ++ next.phase.debug)

/-! ## Updates -/

abbrev Update := PublicationOperationState → Except String PublicationOperationState

def failedText (failure : Option PublicationFailure) : String :=
  failure.elim "" fun f => "publication is failed at " ++ f.phase.debug ++ ": " ++ f.message

def advancePhase (phase : PublicationPhase) : Update := fun state => do
  bailIf state.cancelRequested "publication cancellation is requested"
  bailIf state.failure.isSome (failedText state.failure)
  bailIf (state.phase.successor ≠ some phase)
    ("invalid publication phase transition " ++ state.phase.debug ++ " -> " ++ phase.debug)
  return { state with phase, progress := none }

def updateProgress (progress : PublicationProgress) : Update := fun state => do
  bailIf (state.phase.isTerminal ∨ state.cancelRequested ∨ state.failure.isSome)
    "publication operation is not accepting progress"
  bailIf (progress.message = "" ∨ progress.total.any (· < progress.completed))
    "invalid publication progress"
  return { state with progress := some progress }

def recordArtifact (relativePath blake3 : String) : Update := fun state => do
  validateRelativePath relativePath
  validateDigest blake3
  bailIf (state.phase.isTerminal ∨ state.cancelRequested ∨ state.failure.isSome)
    "publication operation is not accepting artifacts"
  bailIf ((state.completedArtifacts.lookup relativePath).any (· ≠ blake3))
    ("artifact " ++ relativePath ++ " was already checkpointed with a different digest")
  return { state with completedArtifacts := state.completedArtifacts.insert relativePath blake3 }

/-- The checkpoint of `mark_ready`, after the slot was validated. -/
def markReady (digest : String) : Update := fun state =>
  .ok { state with validatedManifestBlake3 := some digest, phase := .ready, progress := none }

/-- The checkpoint of `select_operation`. -/
def beginActivation : Update := fun state => .ok { state with phase := .activating, progress := none }

def requestCancel : Update := fun state => do
  bailIf state.phase.isTerminal ("cannot cancel terminal publication phase " ++ state.phase.debug)
  return { state with cancelRequested := true }

def acknowledgeCancel : Update := fun state => do
  bailIf (!state.cancelRequested) "publication cancellation was not requested"
  return { state with phase := .cancelled, progress := none }

def recordFailure (code message : String) (retryable : Bool) : Update := fun state => do
  bailIf state.phase.isTerminal ("cannot fail terminal publication phase " ++ state.phase.debug)
  bailIf (code = "" ∨ message = "") "publication failure requires a code and message"
  return { state with failure := some { phase := state.phase, code, message, retryable } }

def resume (requested : PublicationOperationPlan) : Update := fun state => do
  state.resumableWith lib requested
  bailIf (state.failure.any (!·.retryable)) "publication failure is not retryable; discard explicitly"
  return { state with failure := none, cancelRequested := false }

def relinkBaseKey (inputFingerprint : String) : String :=
  "relink/base_generation/" ++ lib.blake3Hex inputFingerprint

def recordCodeLinkBaseGeneration (generation : ℕ) : Update := fun state => do
  bailIf (state.phase ≠ .graph ∨ state.cancelRequested ∨ state.failure.isSome)
    "publication graph baseline requires an active graph phase"
  let key := relinkBaseKey lib state.plan.inputFingerprint
  return { state with
    completedArtifacts :=
      if (state.completedArtifacts.lookup key).isSome then state.completedArtifacts
      else state.completedArtifacts.insert key (toString generation) }

/-! ## Checkpoints -/

/-- A new revision.  The time is that of the clock. -/
def PublicationOperationState.stamp (incumbent next : PublicationOperationState) (now : ℕ) :
    Except String PublicationOperationState := do
  bailIf (u64Max < incumbent.revision + 1) "publication operation revision exhausted"
  return { next with
    revision := incumbent.revision + 1
    updatedUnixMillis := max now incumbent.updatedUnixMillis }

def checkRevision (expectedRevision : ℕ) (state : PublicationOperationState) : Except String Unit :=
  bailIf (state.revision ≠ expectedRevision)
    ("stale publication-operation writer: expected revision " ++ toString expectedRevision ++
      ", current revision " ++ toString state.revision)

/-- What `checkpoint_operation_locked` persists in place of the incumbent. -/
def checkpoint (now expectedRevision : ℕ) (update : Update) : Update := fun incumbent => do
  checkRevision expectedRevision incumbent
  let next ← update incumbent
  validateUpdate lib incumbent next
  incumbent.stamp next now

/-- One source that is indexed again: its checkpoint goes, and a mark of the invalidation stays. -/
def invalidate (artifacts : Finmap fun _ : String => String) (source : String) :
    Finmap fun _ : String => String :=
  (artifacts.erase source).insert ("relink/" ++ source) "invalidated"

/-- What `rescope_operation` persists. -/
def rescope (requested : PublicationOperationPlan) (now expectedRevision : ℕ)
    (invalidated : List String) : Update := fun incumbent => do
  requested.validate lib
  checkRevision expectedRevision incumbent
  bailIf (!incumbent.phase.acceptsRescope ∨ incumbent.cancelRequested)
    ("publication operation in phase " ++ incumbent.phase.debug ++ " cannot be rescoped")
  bailIf (incumbent.failure.any (!·.retryable)) "publication failure is not retryable; discard explicitly"
  bailIf ({ requested with inputFingerprint := incumbent.plan.inputFingerprint } ≠ incumbent.plan)
    "publication operation is incompatible with the requested resume beyond its source inputs"
  let next := { incumbent with
    plan := { incumbent.plan with inputFingerprint := requested.inputFingerprint }
    phase := if incumbent.phase = .planned then .planned else .graph
    completedArtifacts := invalidated.foldl invalidate incumbent.completedArtifacts
    failure := none
    progress := none
    validatedManifestBlake3 := none }
  next.plan.validate lib
  incumbent.stamp next now

/-! ## What is persisted -/

/-- A plan that passes its validation. -/
structure PublicationOperationPlan.IsValid (plan : PublicationOperationPlan) : Prop where
  operation : ∃ u, lib.parseStr plan.operationUuid = .ok u ∧ u ≠ lib.nil
  target : ∃ t, lib.parseStr plan.targetPublicationUuid = .ok t ∧ t ≠ lib.nil ∧
    ∀ text ∈ plan.expectedCurrentPublicationUuid, ∃ e, lib.parseStr text = .ok e ∧ e ≠ lib.nil ∧ e ≠ t

variable {lib}

lemma parseNonNilUuid_eq_ok {label value : String} {u : υ} :
    parseNonNilUuid lib label value = .ok u ↔ lib.parseStr value = .ok u ∧ u ≠ lib.nil :=
  parseUuidAs_eq_ok lib

lemma expectsOther_eq_ok {target : υ} {expected : Option String} {u : Unit} :
    expectsOther lib target expected = .ok u ↔
      ∀ text ∈ expected, ∃ e, lib.parseStr text = .ok e ∧ e ≠ lib.nil ∧ e ≠ target := by
  cases expected with
  | none => simp [expectsOther]
  | some text => simp [expectsOther, parseNonNilUuid_eq_ok, and_assoc]

lemma PublicationOperationPlan.isValid_of_validate {plan : PublicationOperationPlan}
    (h : plan.validate lib = .ok ()) : plan.IsValid lib := by
  simp only [validate, bind_eq_ok, parseNonNilUuid_eq_ok, expectsOther_eq_ok] at h
  obtain ⟨u, hu, -, -, t, ⟨ht, hnil⟩, ⟨⟩, hexpected, -⟩ := h
  exact ⟨⟨u, hu⟩, t, ht, hnil, hexpected⟩

variable (lib) in
/-- What is kept from one revision of a journal to the next. -/
structure Succeeds (s s' : PublicationOperationState) : Prop where
  revision : s'.revision = s.revision + 1
  updated : s.updatedUnixMillis ≤ s'.updatedUnixMillis
  version : s.stateVersion = operationStateVersion → s'.stateVersion = operationStateVersion
  plan : s'.plan = { s.plan with inputFingerprint := s'.plan.inputFingerprint }
  valid : s'.plan.validate lib = .ok ()
  phase : s'.phase = s.phase ∨ s.phase.successor = some s'.phase ∨
    (s'.phase = .cancelled ∧ s'.cancelRequested = true) ∨
    (s.phase.acceptsRescope = true ∧ s'.phase = .graph ∧ s'.validatedManifestBlake3 = none)
  terminal : s.phase.isTerminal = true →
    s' = { s with revision := s'.revision, updatedUnixMillis := s'.updatedUnixMillis }

lemma checkRevision_eq_ok {expectedRevision : ℕ} {s : PublicationOperationState} {u : Unit} :
    checkRevision expectedRevision s = .ok u ↔ s.revision = expectedRevision := by
  rw [checkRevision, bailIf_eq_ok, not_not]

/-- **What a checkpoint persists.** -/
lemma checkpoint_eq_ok {now expectedRevision : ℕ} {update : Update} {s s' : PublicationOperationState}
    (h : checkpoint lib now expectedRevision update s = .ok s') :
    s.revision = expectedRevision ∧ Succeeds lib s s' ∧
      ∃ next, update s = .ok next ∧ validateUpdate lib s next = .ok () ∧
        s' = { next with
          revision := s.revision + 1
          updatedUnixMillis := max now s.updatedUnixMillis } := by
  simp only [checkpoint, bind_eq_ok, checkRevision_eq_ok] at h
  obtain ⟨-, hrevision, next, hnext, ⟨⟩, hvalidate, hstamp⟩ := h
  simp only [PublicationOperationState.stamp, bind_eq_ok, bailIf_eq_ok, pure_eq_ok] at hstamp
  obtain ⟨-, -, rfl⟩ := hstamp
  refine ⟨hrevision, ?_, next, hnext, hvalidate, rfl⟩
  simp only [validateUpdate, bind_eq_ok, bailIf_eq_ok] at hvalidate
  obtain ⟨⟨⟩, hvalid, -, himmutable, -, hterminal, htransition⟩ := hvalidate
  have hkept : next.stateVersion = operationStateVersion ∧ next.plan = s.plan := by tauto
  refine ⟨rfl, le_max_right _ _, ?_, ?_, hvalid, ?_, fun hends => ?_⟩
  · exact fun _ => hkept.1
  · rw [hkept.2]
  · tauto
  · have hsame : next = s := by tauto
    rw [hsame]

end

end PublicationRoot
end NestWeaver
