import Mathlib.Algebra.Ring.Nat
import NestWeaver.Engine.Publication.Journal

/-!
# The publication root

`crates/nestweaver-engine/src/publication.rs` and `publication_operation.rs`: the `CURRENT` pointer, the slots
and the directories of the operations, and the functions that read and change them.  Each function is given
with the state of the root that it leaves behind.  A text that `serde_json` writes is read back as it was.

The pointer moves by compare-and-swap only: to the target of an operation (`selectCurrent`), and back to the
retained predecessor (`rollbackCurrent`).
-/

set_option linter.all false

namespace NestWeaver
namespace PublicationRoot

open Checked

/-- What is hashed of a `CURRENT` pointer. -/
structure PointerPayload where
  version : ℕ
  brainUuid : String
  publicationUuid : String
  expectedPreviousPublicationUuid : Option String
  rolledBackFromPublicationUuid : Option String
  manifestBlake3 : String
  deriving DecidableEq, Repr

/-- The crates, with what `serde_json` writes of a state and of a pointer. -/
structure Crates (υ β : Type) extends Libraries υ β where
  stateJson : PublicationOperationState → β
  payloadJson : PointerPayload → β

/-! ## Files -/

structure CurrentPublicationPointer where
  version : ℕ
  brainUuid : String
  publicationUuid : String
  expectedPreviousPublicationUuid : Option String
  rolledBackFromPublicationUuid : Option String
  manifestBlake3 : String
  checksumBlake3 : String
  deriving DecidableEq, Repr

structure ChecksummedOperationState where
  checksumBlake3 : String
  state : PublicationOperationState
  deriving DecidableEq

/-- The directory of an operation.  Its journal is missing, cannot be decoded, or can. -/
structure OperationDir (β : Type) where
  journal : Option ChecksummedOperationState
  discardedSlot : Option (Slot β)

structure Root (υ β : Type) where
  current : Option CurrentPublicationPointer
  slots : AList fun _ : String => Slot β
  operations : AList fun _ : υ => OperationDir β

/-- What the owner of the publication lease says about the graph of the incumbent. -/
structure Lease where
  ensureCleanForSnapshot : Except String Unit
  publicationIdentity : Except String (Option PublicationIdentity)

/-- `CURRENT_POINTER_VERSION`. -/
def currentPointerVersion : ℕ := 1

section

variable {υ β : Type} [DecidableEq υ] (crates : Crates υ β)

/-! ## The pointer -/

namespace CurrentPublicationPointer

def payload (pointer : CurrentPublicationPointer) : PointerPayload where
  version := pointer.version
  brainUuid := pointer.brainUuid
  publicationUuid := pointer.publicationUuid
  expectedPreviousPublicationUuid := pointer.expectedPreviousPublicationUuid
  rolledBackFromPublicationUuid := pointer.rolledBackFromPublicationUuid
  manifestBlake3 := pointer.manifestBlake3

def payloadDigest (pointer : CurrentPublicationPointer) : String :=
  crates.blake3HexBytes (crates.payloadJson pointer.payload)

/-- The pointer with its checksum. -/
def sealed (pointer : CurrentPublicationPointer) : CurrentPublicationPointer :=
  { pointer with checksumBlake3 := pointer.payloadDigest crates }

/-- A UUID of the pointer, if there is one, is not that of the publication it selects. -/
def differs (name publicationUuid error : String) : Option String → Except String Unit
  | none => .ok ()
  | some other => do
    let other ← parseUuid crates.toLibraries name other
    let current ← parseUuid crates.toLibraries "publication_uuid" publicationUuid
    bailIf (other = current) error

def new (identity : PublicationIdentity) (expectedPreviousPublicationUuid : Option String)
    (manifestBlake3 : String) : Except String CurrentPublicationPointer := do
  within "invalid publication identity" (identity.validate crates.toLibraries)
  validateNamedDigest "manifest_blake3" manifestBlake3
  differs crates "expected_previous_publication_uuid" identity.publicationUuid
    "expected previous publication UUID must differ from the new publication UUID"
    expectedPreviousPublicationUuid
  return sealed crates {
    version := currentPointerVersion
    brainUuid := identity.brainUuid
    publicationUuid := identity.publicationUuid
    expectedPreviousPublicationUuid
    rolledBackFromPublicationUuid := none
    manifestBlake3
    checksumBlake3 := "" }

def validate (pointer : CurrentPublicationPointer) : Except String Unit := do
  bailIf (pointer.version ≠ currentPointerVersion)
    ("unsupported CURRENT pointer version " ++ toString pointer.version ++ " (supported: " ++
      toString currentPointerVersion ++ ")")
  within "invalid CURRENT identity"
    (PublicationIdentity.validate crates.toLibraries ⟨pointer.brainUuid, pointer.publicationUuid⟩)
  validateNamedDigest "manifest_blake3" pointer.manifestBlake3
  validateNamedDigest "checksum_blake3" pointer.checksumBlake3
  differs crates "expected_previous_publication_uuid" pointer.publicationUuid
    "CURRENT expected previous publication UUID equals its selected publication"
    pointer.expectedPreviousPublicationUuid
  differs crates "rolled_back_from_publication_uuid" pointer.publicationUuid
    "rollback source UUID equals the selected publication UUID" pointer.rolledBackFromPublicationUuid
  bailIf (pointer.rolledBackFromPublicationUuid.isSome ∧ pointer.expectedPreviousPublicationUuid.isSome)
    "a rolled-back CURRENT pointer cannot advertise another rollback predecessor"
  bailIf (pointer.payloadDigest crates ≠ pointer.checksumBlake3)
    ("CURRENT checksum mismatch: expected " ++ pointer.checksumBlake3 ++ ", computed " ++
      pointer.payloadDigest crates)

def afterRollback (identity : PublicationIdentity) (rolledBackFromPublicationUuid manifestBlake3 : String) :
    Except String CurrentPublicationPointer := do
  let pointer ← new crates identity none manifestBlake3
  let pointer := sealed crates
    { pointer with rolledBackFromPublicationUuid := some rolledBackFromPublicationUuid }
  pointer.validate crates
  return pointer

end CurrentPublicationPointer

namespace Root

variable (root : Root υ β)

def readCurrent : Except String (Option CurrentPublicationPointer) :=
  match root.current with
  | none => .ok none
  | some pointer => do
    within "validate CURRENT pointer" (pointer.validate crates)
    return some pointer

/-! ## Operations -/

def stateChecksum (state : PublicationOperationState) : String :=
  crates.blake3HexBytes (crates.stateJson state)

def validateLoadedState (requestedOperationUuid : String) (envelope : ChecksummedOperationState) :
    Except String Unit := do
  bailIf (envelope.state.stateVersion ≠ operationStateVersion)
    ("publication operation state version " ++ toString envelope.state.stateVersion ++
      " is incompatible with supported version " ++ toString operationStateVersion)
  envelope.state.plan.validate crates.toLibraries
  let same ← uuidEqual crates.toLibraries requestedOperationUuid envelope.state.plan.operationUuid
  bailIf (!same) "publication operation path identity does not match journal identity"
  bailIf (stateChecksum crates envelope.state ≠ envelope.checksumBlake3)
    ("publication operation checksum mismatch: recorded " ++ envelope.checksumBlake3 ++ ", observed " ++
      stateChecksum crates envelope.state)

/-- `load_operation_from_path`. -/
def loadFrom (dir : OperationDir β) (operationUuid : String) : Except String PublicationOperationState :=
  match dir.journal with
  | none => .error "read publication operation"
  | some envelope => do
    validateLoadedState crates operationUuid envelope
    return envelope.state

/-- The UUID that the directory of an operation is named after. -/
def operationKey (operationUuid : String) : Except String υ :=
  parseUuid crates.toLibraries "operation_uuid" operationUuid

def loadOperation (operationUuid : String) : Except String PublicationOperationState := do
  let _ ← parseNonNilUuid crates.toLibraries "operation_uuid" operationUuid
  let key ← operationKey crates operationUuid
  match root.operations.lookup key with
  | none => .error "read publication operation"
  | some dir => loadFrom crates dir operationUuid

/-- The journal of the operation is replaced. -/
def persistState (key : υ) (state : PublicationOperationState) : Root υ β :=
  let discardedSlot := (root.operations.lookup key).bind (·.discardedSlot)
  let dir := ⟨some ⟨stateChecksum crates state, state⟩, discardedSlot⟩
  { root with operations := root.operations.insert key dir }

/-- A function that loads the journal, checks and changes it, and persists it. -/
def updateOperation (operationUuid : String) (update : Update) :
    Except String (Root υ β × PublicationOperationState) := do
  let key ← operationKey crates operationUuid
  let incumbent ← root.loadOperation crates operationUuid
  let next ← update incumbent
  return (root.persistState crates key next, next)

structure InvalidPublicationOperation where
  operationUuid : String
  error : String
  deriving DecidableEq, Repr

structure PublicationOperationList where
  operations : List PublicationOperationState
  invalidOperations : List InvalidPublicationOperation

/-- What `list_operations` reads, in the order of the directory. -/
def readOperations : List (υ × Except String PublicationOperationState) :=
  root.operations.entries.map fun e => (e.1, root.loadOperation crates (crates.text e.1))

def listOperations : PublicationOperationList where
  operations :=
    ((root.readOperations crates).filterMap fun e => e.2.toOption).mergeSort fun a b =>
      a.plan.createdUnixMillis < b.plan.createdUnixMillis ∨
        (a.plan.createdUnixMillis = b.plan.createdUnixMillis ∧
          a.plan.operationUuid ≤ b.plan.operationUuid)
  invalidOperations :=
    ((root.readOperations crates).filterMap fun e =>
      match e.2 with
      | .ok _ => none
      | .error error => some ⟨crates.text e.1, error⟩).mergeSort fun a b =>
        a.operationUuid ≤ b.operationUuid

/-! ## Selection -/

/-- The name of the directory of a slot: `slot_path`. -/
def slotName (publicationUuid : String) : Except String String :=
  return crates.text (← parseUuid crates.toLibraries "publication_uuid" publicationUuid)

def slot (publicationUuid : String) : Except String (Slot β) := do
  let name ← slotName crates publicationUuid
  match root.slots.lookup name with
  | none => .error ("no slot " ++ name)
  | some slot => .ok slot

/-- The bytes of the manifest of a slot; the text of the error says whose. -/
def slotManifest (whose publicationUuid : String) : Except String β := do
  match (← root.slot crates publicationUuid).manifest with
  | none => .error ("read " ++ whose ++ " manifest")
  | some bytes => .ok bytes

def parseUuidOption (name : String) : Option String → Except String (Option υ)
  | none => .ok none
  | some value => do return some (← parseUuid crates.toLibraries name value)

def shown (uuid : Option υ) : String := uuid.elim "<none>" crates.text

/-- The pointer is replaced if it selects what is expected, and its predecessor is what is expected. -/
def compareAndSwapCurrent (lease : Lease) (expectedCurrent : Option String)
    (next : CurrentPublicationPointer) : Except String (Root υ β) := do
  within "refusing CURRENT switch from dirty graph" lease.ensureCleanForSnapshot
  next.validate crates
  let identity ← within "read incumbent publication identity" lease.publicationIdentity
  bailIf identity.isNone "incumbent graph has no publication identity"
  let incumbentBrain := identity.elim "" (·.brainUuid)
  let incumbent ← parseUuid crates.toLibraries "incumbent brain_uuid" incumbentBrain
  let brain ← parseUuid crates.toLibraries "next brain_uuid" next.brainUuid
  bailIf (incumbent ≠ brain)
    ("refusing CURRENT switch across brains: incumbent is " ++ incumbentBrain ++ ", target is " ++
      next.brainUuid)
  let current ← root.readCurrent crates
  let observed ← parseUuidOption crates "current publication_uuid" (current.map (·.publicationUuid))
  let expected ← parseUuidOption crates "expected current publication_uuid" expectedCurrent
  bailIf (observed ≠ expected)
    ("CURRENT compare-and-swap conflict: expected " ++ shown crates expected ++ ", observed " ++
      shown crates observed)
  let declaredPrevious ← parseUuidOption crates "declared previous publication_uuid"
    next.expectedPreviousPublicationUuid
  let rollbackSource ← parseUuidOption crates "rolled_back_from_publication_uuid"
    next.rolledBackFromPublicationUuid
  bailIf (¬if rollbackSource.isSome then rollbackSource = expected ∧ declaredPrevious = none
      else declaredPrevious = expected)
    ("CURRENT pointer declares previous " ++ shown crates declaredPrevious ++ " and rollback source " ++
      shown crates rollbackSource ++ ", but compare-and-swap expects " ++ shown crates expected)
  let manifest ← root.slotManifest crates "target publication" next.publicationUuid
  bailIf (crates.blake3HexBytes manifest ≠ next.manifestBlake3)
    ("target publication manifest digest mismatch: CURRENT declares " ++ next.manifestBlake3 ++
      ", slot contains " ++ crates.blake3HexBytes manifest)
  return { root with current := some next }

/-- The digest of the manifest of a slot that may be activated for the operation. -/
def validateTargetSlot (state : PublicationOperationState) : Except String String := do
  let bytes ← root.slotManifest crates "target" state.plan.targetPublicationUuid
  let bundle ← crates.decodeBundle bytes
  bundle.validateMetadata crates.toLibraries state.plan.publicationFormatVersion
  let sameBrain ← uuidEqual crates.toLibraries bundle.brainUuid state.plan.brainUuid
  let sameTarget ← uuidEqual crates.toLibraries bundle.publicationUuid state.plan.targetPublicationUuid
  bailIf (!sameBrain ∨ !sameTarget ∨ bundle.producerVersion ≠ state.plan.producerVersion)
    "target publication manifest identity or producer does not match operation"
  let slot ← root.slot crates state.plan.targetPublicationUuid
  validateSlotContents crates.toLibraries slot bundle .verified
  return crates.blake3HexBytes bytes

/-- Whether the pointer selects the validated target of the operation. -/
def selects (state : PublicationOperationState) (pointer : CurrentPublicationPointer) : Bool :=
  (uuidEqual crates.toLibraries pointer.publicationUuid state.plan.targetPublicationUuid).toOption = some true ∧
    pointer.manifestBlake3 = state.validatedManifestBlake3.getD ""

/-- What `select_operation` checks before the phase is `Activating`. -/
def selectable (expectedRevision : ℕ) (state : PublicationOperationState) : Except String Unit := do
  checkRevision expectedRevision state
  bailIf (state.failure.isSome ∨ state.cancelRequested) "publication operation is failed or cancelled"
  bailIf (state.phase ≠ .ready ∧ state.phase ≠ .activating)
    "publication activation requires ready or activating phase"

/-- The first half of `select_operation`: the phase is `Activating`. -/
def beginSelect (operationUuid : String) (now expectedRevision : ℕ) :
    Except String (Root υ β × PublicationOperationState) := do
  let state ← root.loadOperation crates operationUuid
  selectable expectedRevision state
  if state.phase = .ready then
    root.updateOperation crates operationUuid
      (checkpoint crates.toLibraries now state.revision beginActivation)
  else return (root, state)

/-- The second half of `select_operation`: the pointer selects the target. -/
def selectCurrent (lease : Lease) (state : PublicationOperationState) : Except String (Root υ β) := do
  let current ← root.readCurrent crates
  if current.any (selects crates state) then return root
  let digest ← root.validateTargetSlot crates state
  bailIf (state.validatedManifestBlake3 ≠ some digest)
    "validated publication manifest digest changed before activation"
  let pointer ← CurrentPublicationPointer.new crates
    ⟨state.plan.brainUuid, state.plan.targetPublicationUuid⟩ state.plan.expectedCurrentPublicationUuid digest
  root.compareAndSwapCurrent crates lease state.plan.expectedCurrentPublicationUuid pointer

/-- What `complete_activation` checks before its checkpoint. -/
def checkActivated (operationUuid : String) (expectedRevision : ℕ) : Except String Unit := do
  let state ← root.loadOperation crates operationUuid
  bailIf (state.revision ≠ expectedRevision ∨ state.phase ≠ .activating)
    "publication completion requires the observed activating revision"
  let current ← root.readCurrent crates
  bailIf current.isNone "CURRENT disappeared before activation completed"
  bailIf (!current.any (selects crates state)) "CURRENT does not select the validated target publication"

/-- What `mark_ready` computes before its checkpoint. -/
def checkReady (operationUuid : String) (expectedRevision : ℕ) : Except String String := do
  let incumbent ← root.loadOperation crates operationUuid
  checkRevision expectedRevision incumbent
  bailIf (incumbent.phase ≠ .validating) "publication can become ready only from validating"
  root.validateTargetSlot crates incumbent

/-- `SNAPSHOT_FORMAT_VERSION` is the format of this release. -/
def rollbackCurrent (snapshotFormatVersion : ℕ) (lease : Lease) (expectedCurrent : String) :
    Except String (Root υ β) := do
  within "refusing CURRENT rollback from dirty graph" lease.ensureCleanForSnapshot
  match ← root.readCurrent crates with
  | none => .error "no selected publication to roll back"
  | some current =>
    bailIf current.rolledBackFromPublicationUuid.isSome
      ("CURRENT already represents the one-step rollback from " ++
        current.rolledBackFromPublicationUuid.getD "" ++
        "; activate a fresh publication before another rollback")
    let expected ← parseUuid crates.toLibraries "expected current publication_uuid" expectedCurrent
    let observed ← parseUuid crates.toLibraries "observed current publication_uuid" current.publicationUuid
    bailIf (expected ≠ observed)
      ("CURRENT rollback conflict: expected " ++ expectedCurrent ++ ", observed " ++ current.publicationUuid)
    let identity ← within "read rollback graph identity" lease.publicationIdentity
    bailIf identity.isNone "rollback graph has no publication identity"
    let storeBrain ← parseUuid crates.toLibraries "rollback brain_uuid" (identity.elim "" (·.brainUuid))
    let brain ← parseUuid crates.toLibraries "CURRENT brain_uuid" current.brainUuid
    bailIf (storeBrain ≠ brain) "refusing CURRENT rollback across brains"
    match current.expectedPreviousPublicationUuid with
    | none => return { root with current := none }
    | some previousUuid =>
      let bytes ← root.slotManifest crates "rollback publication" previousUuid
      let bundle ← crates.decodeBundle bytes
      bundle.validateMetadata crates.toLibraries snapshotFormatVersion
      let bundlePublication ← parseUuid crates.toLibraries "rollback predecessor publication_uuid"
        bundle.publicationUuid
      let previous ← parseUuid crates.toLibraries "CURRENT predecessor publication_uuid" previousUuid
      let bundleBrain ← parseUuid crates.toLibraries "rollback predecessor brain_uuid" bundle.brainUuid
      bailIf (bundlePublication ≠ previous ∨ bundleBrain ≠ brain)
        "rollback predecessor manifest identity does not match CURRENT"
      let slot ← root.slot crates previousUuid
      validateSlotContents crates.toLibraries slot bundle .live
      let pointer ← CurrentPublicationPointer.afterRollback crates ⟨bundle.brainUuid, bundle.publicationUuid⟩
        current.publicationUuid (crates.blake3HexBytes bytes)
      root.compareAndSwapCurrent crates lease (some current.publicationUuid) pointer

/-! ## Reclaiming slots -/

/-- The slots that are retained, with the reasons, those of the operations last. -/
def retainedSlots : Except String (List (String × String)) := do
  let selected :=
    match ← root.readCurrent crates with
    | none => []
    | some pointer =>
      (pointer.publicationUuid, "selected by CURRENT") ::
        (pointer.expectedPreviousPublicationUuid.toList.map fun previous =>
          (previous, "retained predecessor for one-step rollback"))
  let inFlight := ((root.listOperations crates).operations.filter fun o => !o.phase.isTerminal).map fun o =>
    (o.plan.targetPublicationUuid,
      "targeted by in-flight operation " ++ o.plan.operationUuid ++ " (" ++ o.phase.debug ++ ")")
  return selected ++ inFlight

/-- Why a slot is retained. -/
def retainedBecause (retained : List (String × String)) (name : String) : Option String :=
  (retained.lookup name).or
    ((root.listOperations crates).invalidOperations.head?.map fun invalid =>
      "unreadable operation journal " ++ invalid.operationUuid ++ " may still target it")

structure SlotDisposition where
  publicationUuid : String
  bytes : ℕ
  retainedBecause : Option String
  deriving DecidableEq, Repr

structure SlotPruneReport where
  slots : List SlotDisposition
  removedBytes : ℕ
  dryRun : Bool
  deriving DecidableEq, Repr

def directoryBytes (slot : Slot β) : ℕ :=
  (slot.entries.map fun e =>
    match e.2 with
    | .file content => crates.byteSize content
    | .symlink _ | .directory => 0).sum

def dispositions (retained : List (String × String)) : List SlotDisposition :=
  root.slots.entries.map fun e =>
    ⟨e.1, directoryBytes crates e.2, root.retainedBecause crates retained e.1⟩

/-- The names of the slots that go, in the order of the directory. -/
def reclaimable : Except String (List String) := do
  let retained ← root.retainedSlots crates
  return ((root.dispositions crates retained).filter (·.retainedBecause.isNone)).map (·.publicationUuid)

def removeSlot (name : String) : Root υ β := { root with slots := root.slots.erase name }

def pruneSlots (dryRun : Bool) : Except String (Root υ β × SlotPruneReport) := do
  let retained ← root.retainedSlots crates
  let names ← root.reclaimable crates
  let slots := root.dispositions crates retained
  let removed := slots.filter (·.retainedBecause.isNone)
  return (if dryRun then root else names.foldl removeSlot root,
    { slots := slots.mergeSort fun a b => a.publicationUuid ≤ b.publicationUuid
      removedBytes := (removed.map (·.bytes)).sum
      dryRun })

/-! ## Discarding operations -/

/-- What `discard_operation` checks before it moves anything. -/
def discardable (operationUuid : String) (expectedRevision : ℕ) :
    Except String PublicationOperationState := do
  let state ← root.loadOperation crates operationUuid
  checkRevision expectedRevision state
  bailIf (state.phase ≠ .cancelled ∧ state.failure.isNone ∧ state.cancelRequested)
    ("publication operation " ++ state.plan.operationUuid ++
      " has a cancellation requested but not acknowledged (phase " ++ state.phase.debug ++
      ") — no worker is left to acknowledge it. Re-run with --force to acknowledge and discard in one step.")
  bailIf (state.phase ≠ .cancelled ∧ state.failure.isNone)
    ("only a cancelled or failed staging operation may be discarded (phase " ++ state.phase.debug ++
      "); cancel it first with `nestweaver publication cancel`")
  let current ← root.readCurrent crates
  bailIf (current.any fun pointer => (uuidEqual crates.toLibraries pointer.publicationUuid
      state.plan.targetPublicationUuid).toOption = some true)
    "refusing to discard the currently selected publication"
  return state

/-- The slot of the operation is moved into the directory of the operation, if it exists. -/
def moveSlot (operationUuid : String) (state : PublicationOperationState) : Except String (Root υ β) := do
  let key ← operationKey crates operationUuid
  let name ← slotName crates state.plan.targetPublicationUuid
  match root.slots.lookup name, root.operations.lookup key with
  | none, _ => return root
  | some _, none => .error "rename slot"
  | some slot, some dir =>
    bailIf dir.discardedSlot.isSome "rename slot"
    return { root with
      slots := root.slots.erase name
      operations := root.operations.insert key { dir with discardedSlot := some slot } }

/-- The directory of the operation leaves the names that are read. -/
def removeOperation (key : υ) : Root υ β := { root with operations := root.operations.erase key }

end Root

end

end PublicationRoot
end NestWeaver
