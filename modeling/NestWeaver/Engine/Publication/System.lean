import NestWeaver.Engine.Publication.Root
import NestWeaver.Framework.Transition

/-!
# Processes at a publication root

A rebuild, a rollback, a discard and a prune hold the root lock, so there is at most one of them at a time
(`Session`); a cancellation is requested by any process at any time.  A session stops at any of its steps,
and what it has written stays.  A journal may become unreadable.

A function that returns an error leaves the root as it was; its session goes on or ends.
-/

set_option linter.all false

namespace NestWeaver
namespace PublicationRoot

open Checked Transition

variable {υ β : Type} [DecidableEq υ]

/-! ## Sessions -/

/-- Where the owner of the root lock is. -/
inductive Session (υ β : Type)
  /-- Between two calls. -/
  | idle
  /-- `create_operation`: the directory exists, and the journal does not. -/
  | creating (key : υ) (state : PublicationOperationState)
  /-- `mark_ready`: the slot was validated. -/
  | readying (operationUuid : String) (expectedRevision : ℕ) (digest : String)
  /-- `select_operation`, under the lock of the journal: the phase is `Activating`. -/
  | selecting (key : υ) (state : PublicationOperationState)
  /-- `complete_activation`: the pointer was checked. -/
  | completing (operationUuid : String) (expectedRevision : ℕ)
  /-- `discard_operation`, under the lock of the journal: the slot was moved. -/
  | discarding (key : υ)
  /-- `discard_invalid_operation`, under the lock of the journal: the directory was moved away. -/
  | quarantined (key : υ) (dir : OperationDir β)
  /-- `prune_slots`: these are still to be removed. -/
  | pruning (names : List String)

/-- The journal that the session has locked. -/
def Session.lockedJournal : Session υ β → Option υ
  | .selecting key _ | .discarding key | .quarantined key _ => some key
  | .idle | .creating _ _ | .readying _ _ _ | .completing _ _ | .pruning _ => none

/-- The publication root, and the owner of its lock. -/
structure System (υ β : Type) where
  root : Root υ β
  session : Option (Session υ β)

def empty : System υ β := ⟨⟨none, ∅, ∅⟩, none⟩

/-! ## Calls -/

/-- The functions that load, check and persist one journal.  A rebuild advances up to `Validating` by
`advance_phase`. -/
inductive JournalCall
  | advance (phase : PublicationPhase)
  | progress (progress : PublicationProgress)
  | artifact (relativePath blake3 : String)
  | requestCancel
  | acknowledgeCancel
  | fail (code message : String) (retryable : Bool)
  | resume (requested : PublicationOperationPlan)
  | baseGeneration (generation : ℕ)
  | rescope (requested : PublicationOperationPlan) (invalidated : List String)

def JournalCall.apply (crates : Crates υ β) (now expectedRevision : ℕ) : JournalCall → Update
  | .advance phase => checkpoint crates.toLibraries now expectedRevision (advancePhase phase)
  | .progress p => checkpoint crates.toLibraries now expectedRevision (updateProgress p)
  | .artifact path blake3 => checkpoint crates.toLibraries now expectedRevision (recordArtifact path blake3)
  | .requestCancel => checkpoint crates.toLibraries now expectedRevision PublicationRoot.requestCancel
  | .acknowledgeCancel => checkpoint crates.toLibraries now expectedRevision PublicationRoot.acknowledgeCancel
  | .fail code message retryable =>
    checkpoint crates.toLibraries now expectedRevision (recordFailure code message retryable)
  | .resume requested =>
    checkpoint crates.toLibraries now expectedRevision (PublicationRoot.resume crates.toLibraries requested)
  | .baseGeneration generation =>
    checkpoint crates.toLibraries now expectedRevision
      (recordCodeLinkBaseGeneration crates.toLibraries generation)
  | .rescope requested invalidated =>
    PublicationRoot.rescope crates.toLibraries requested now expectedRevision invalidated

/-- The rebuild calls `advance_phase` for the phases in which the slot is staged. -/
def JournalCall.permitted : JournalCall → Bool
  | .advance phase => phase.acceptsRescope
  | .progress _ | .artifact _ _ | .requestCancel | .acknowledgeCancel | .fail _ _ _ | .resume _
  | .baseGeneration _ | .rescope _ _ => true

inductive Action (υ β : Type)
  | acquire
  | release
  /-- The session ends at once. -/
  | crash
  /-- `request_cancel`, by any process. -/
  | cancel (now : ℕ) (operationUuid : String) (expectedRevision : ℕ)
  /-- The journal can no longer be read. -/
  | corrupt (key : υ)
  /-- Files of a slot change, its manifest does not. -/
  | live (name : String) (slot : Slot β)
  | call (now : ℕ) (operationUuid : String) (expectedRevision : ℕ) (call : JournalCall)
  /-- A plan over what is selected, with two fresh UUIDs. -/
  | create (operation target : υ) (brainUuid inputFingerprint producerVersion : String)
      (publicationFormatVersion createdUnixMillis : ℕ)
  | persistNew
  /-- The rebuild writes the slot of an operation that is being staged. -/
  | stage (operationUuid : String) (slot : Slot β)
  | validateReady (operationUuid : String) (expectedRevision : ℕ)
  | commitReady (now : ℕ)
  | beginSelect (now : ℕ) (operationUuid : String) (expectedRevision : ℕ)
  | selectCurrent (lease : Lease)
  | checkActivated (operationUuid : String) (expectedRevision : ℕ)
  | commitActivated (now : ℕ)
  | rollback (snapshotFormatVersion : ℕ) (lease : Lease) (expectedCurrent : String)
  | beginDiscard (operationUuid : String) (expectedRevision : ℕ)
  | finishDiscard
  | quarantine (key : υ)
  | finishQuarantine
  | beginPrune
  | pruneSlot

section

variable (crates : Crates υ β)

/-- No pointer, slot or journal names the UUIDs that were drawn. -/
structure Root.Fresh (root : Root υ β) (operation target : υ) : Prop where
  operation : operation ∉ root.operations
  slot : crates.text target ∉ root.slots
  current : ∀ pointer ∈ root.current, pointer.publicationUuid ≠ crates.text target ∧
    pointer.expectedPreviousPublicationUuid ≠ some (crates.text target)
  targets : ∀ e ∈ root.operations.entries, ∀ envelope ∈ e.2.journal,
    envelope.state.plan.targetPublicationUuid ≠ crates.text target

instance (root : Root υ β) (operation target : υ) : Decidable (root.Fresh crates operation target) :=
  decidable_of_iff
    (operation ∉ root.operations ∧ crates.text target ∉ root.slots ∧
      (∀ pointer ∈ root.current, pointer.publicationUuid ≠ crates.text target ∧
        pointer.expectedPreviousPublicationUuid ≠ some (crates.text target)) ∧
      ∀ e ∈ root.operations.entries, ∀ envelope ∈ e.2.journal,
        envelope.state.plan.targetPublicationUuid ≠ crates.text target)
    ⟨fun ⟨ho, hs, hc, ht⟩ => ⟨ho, hs, hc, ht⟩, fun h => ⟨h.operation, h.slot, h.current, h.targets⟩⟩

/-- The plan of `create_operation` of a rebuild. -/
def rebuildPlan (root : Root υ β) (operation target : υ)
    (brainUuid inputFingerprint producerVersion : String)
    (publicationFormatVersion createdUnixMillis : ℕ) : PublicationOperationPlan where
  operationUuid := crates.text operation
  brainUuid := brainUuid
  targetPublicationUuid := crates.text target
  expectedCurrentPublicationUuid := root.current.map (·.publicationUuid)
  inputFingerprint := inputFingerprint
  producerVersion := producerVersion
  publicationFormatVersion := publicationFormatVersion
  createdUnixMillis := createdUnixMillis

/-- A manifest is sealed from the staged graph, which has the identity of the plan. -/
def sealsAs (slot : Slot β) (publicationUuid : String) : Bool :=
  (slot.manifest.bind fun bytes => (crates.decodeBundle bytes).toOption).all
    (·.publicationUuid = publicationUuid)

namespace System

variable [DecidableEq β] (sys : System υ β)

def settle (root : Root υ β) : System υ β := ⟨root, some .idle⟩

/-- The root after a call, or as it was. -/
def settled (outcome : Except String (Root υ β)) : System υ β :=
  match outcome with
  | .ok root => settle root
  | .error _ => settle sys.root

/-- The session goes on with what the call returns, or the call has failed. -/
def goOn {α : Type} (outcome : Except String α) (next : α → System υ β) : System υ β :=
  match outcome with
  | .ok a => next a
  | .error _ => settle sys.root

def journalLocked (operationUuid : String) : Bool :=
  match Root.operationKey crates operationUuid, sys.session with
  | .ok key, some session => session.lockedJournal = some key
  | _, _ => false

/-- The journal cannot be read. -/
def corrupted (key : υ) : Root υ β :=
  match sys.root.operations.lookup key with
  | none => sys.root
  | some dir =>
    { sys.root with operations := sys.root.operations.insert key { dir with journal := none } }

def callJournal (operationUuid : String) (update : Update) : Except String (Root υ β) := do
  return (← sys.root.updateOperation crates operationUuid update).1

/-- The steps of a session. -/
def sessionStep : Session υ β → Action υ β → Option (System υ β)
  | .idle, .release => some ⟨sys.root, none⟩
  | .idle, .call now operationUuid expectedRevision call =>
    if call.permitted then
      some (sys.settled (sys.callJournal crates operationUuid (call.apply crates now expectedRevision)))
    else none
  | .idle, .create operation target brainUuid inputFingerprint producerVersion formatVersion millis =>
    if sys.root.Fresh crates operation target then
      let plan := rebuildPlan crates sys.root operation target brainUuid inputFingerprint producerVersion
        formatVersion millis
      some (sys.goOn (PublicationOperationState.new crates.toLibraries plan) fun state =>
        ⟨{ sys.root with operations := sys.root.operations.insert operation ⟨none, none⟩ },
          some (.creating operation state)⟩)
    else none
  | .creating key state, .persistNew => some (settle (sys.root.persistState crates key state))
  | .idle, .stage operationUuid slot =>
    match sys.root.loadOperation crates operationUuid with
    | .error _ => none
    | .ok state =>
      if state.phase.acceptsRescope ∧ sealsAs crates slot state.plan.targetPublicationUuid then
        some (sys.settled do
          let name ← Root.slotName crates state.plan.targetPublicationUuid
          return { sys.root with slots := sys.root.slots.insert name slot })
      else none
  | .idle, .validateReady operationUuid expectedRevision =>
    some (sys.goOn (sys.root.checkReady crates operationUuid expectedRevision) fun digest =>
      ⟨sys.root, some (.readying operationUuid expectedRevision digest)⟩)
  | .readying operationUuid expectedRevision digest, .commitReady now =>
    some (sys.settled (sys.callJournal crates operationUuid
      (checkpoint crates.toLibraries now expectedRevision (markReady digest))))
  | .idle, .beginSelect now operationUuid expectedRevision =>
    some (sys.goOn (do
        let key ← Root.operationKey crates operationUuid
        return (key, ← sys.root.beginSelect crates operationUuid now expectedRevision)) fun r =>
      ⟨r.2.1, some (.selecting r.1 r.2.2)⟩)
  | .selecting _ state, .selectCurrent lease => some (sys.settled (sys.root.selectCurrent crates lease state))
  | .idle, .checkActivated operationUuid expectedRevision =>
    some (sys.goOn (sys.root.checkActivated crates operationUuid expectedRevision) fun _ =>
      ⟨sys.root, some (.completing operationUuid expectedRevision)⟩)
  | .completing operationUuid expectedRevision, .commitActivated now =>
    some (sys.settled (sys.callJournal crates operationUuid
      (checkpoint crates.toLibraries now expectedRevision (advancePhase .activated))))
  | .idle, .rollback formatVersion lease expectedCurrent =>
    some (sys.settled (sys.root.rollbackCurrent crates formatVersion lease expectedCurrent))
  | .idle, .beginDiscard operationUuid expectedRevision =>
    some (sys.goOn (do
        let key ← Root.operationKey crates operationUuid
        let state ← sys.root.discardable crates operationUuid expectedRevision
        return (key, ← sys.root.moveSlot crates operationUuid state)) fun r =>
      ⟨r.2, some (.discarding r.1)⟩)
  | .discarding key, .finishDiscard => some (settle (sys.root.removeOperation key))
  | .idle, .quarantine key =>
    match sys.root.operations.lookup key with
    | none => some (settle sys.root)
    | some dir => some ⟨sys.root.removeOperation key, some (.quarantined key dir)⟩
  | .quarantined key dir, .finishQuarantine =>
    match Root.loadFrom crates dir (crates.text key) with
    | .ok _ => some (settle { sys.root with operations := sys.root.operations.insert key dir })
    | .error _ => some (settle sys.root)
  | .idle, .beginPrune =>
    some (sys.goOn (sys.root.reclaimable crates) fun names => ⟨sys.root, some (.pruning names)⟩)
  | .pruning [], .pruneSlot => some (settle sys.root)
  | .pruning (name :: names), .pruneSlot => some ⟨sys.root.removeSlot name, some (.pruning names)⟩
  | _, _ => none

def step (sys : System υ β) : Action υ β → Option (System υ β)
  | .acquire => if sys.session.isNone then some (settle sys.root) else none
  | .crash => some ⟨sys.root, none⟩
  | .cancel now operationUuid expectedRevision =>
    if sys.journalLocked crates operationUuid then none
    else
      match sys.callJournal crates operationUuid
          (JournalCall.requestCancel.apply crates now expectedRevision) with
      | .ok root => some ⟨root, sys.session⟩
      | .error _ => some sys
  | .corrupt key => some ⟨sys.corrupted key, sys.session⟩
  | .live name slot =>
    match sys.root.slots.lookup name with
    | none => none
    | some before =>
      if slot.manifest = before.manifest then
        some ⟨{ sys.root with slots := sys.root.slots.insert name slot }, sys.session⟩
      else none
  | a => sys.session.bind fun session => sys.sessionStep crates session a

end System

end

/-! ## A small root -/

namespace Sample

/-- A manifest is the bundle that it decodes to, and other files have no content. -/
abbrev Bytes := Option PublicationBundleV3

def text (u : Fin 6) : String := "00000000-0000-0000-0000-00000000000" ++ toString u.val

def parseStr (value : String) : Except String (Fin 6) :=
  ((List.finRange 6).find? fun u => text u = value).elim (.error "invalid length") .ok

lemma parseStr_text : ∀ u, parseStr (text u) = .ok u := by decide +kernel

def digest (digit : Char) : String := String.ofList (List.replicate 64 digit)

def crates : Crates (Fin 6) Bytes where
  parseStr := parseStr
  text := text
  nil := 0
  parse_text := parseStr_text
  blake3Hex _ := digest 'e'
  blake3HexBytes bytes := digest ((bytes.bind fun b => b.publicationUuid.toList.getLast?).getD 'f')
  byteSize _ := 1
  decodeBundle bytes := bytes.elim (.error "expected value at line 1 column 1") .ok
  toLowercase := id
  stateJson _ := none
  payloadJson _ := none

def bundle (publication : Fin 6) : PublicationBundleV3 where
  formatVersion := 1
  brainUuid := text 1
  publicationUuid := text publication
  producerVersion := "8"
  sourceGraphGeneration := 0
  artifacts := [⟨"graph.lbug", .graph, 1, 1, digest 'f', text 1, text publication, "8", 0, "graph"⟩]

def slot (publication : Fin 6) : Slot Bytes :=
  [⟨publicationManifestFile, .file (some (bundle publication))⟩, ⟨"graph.lbug", .file none⟩].toAList

def lease : Lease := ⟨.ok (), .ok (some ⟨text 1, text 2⟩)⟩

/-- A rebuild up to the phase `Activating`. -/
def build (operation target : Fin 6) : List (Action (Fin 6) Bytes) :=
  let advance revision phase := .call 0 (text operation) revision (.advance phase)
  [.acquire, .create operation target (text 1) "inputs" "8" 1 0, .persistNew,
    .stage (text operation) (slot target), advance 0 .graph, advance 1 .textSearch, advance 2 .regex,
    advance 3 .embeddings, advance 4 .metadata, advance 5 .validating, .validateReady (text operation) 6,
    .commitReady 0, .beginSelect 0 (text operation) 7]

def activate (operation : Fin 6) : List (Action (Fin 6) Bytes) :=
  [.selectCurrent lease, .checkActivated (text operation) 8, .commitActivated 0, .release]

def result (actions : List (Action (Fin 6) Bytes)) : Option (System (Fin 6) Bytes) :=
  run (System.step crates) empty actions

/-- Two rebuilds, one after the other. -/
def republish : List (Action (Fin 6) Bytes) :=
  build 2 3 ++ [Action.selectCurrent lease, .release] ++ build 4 5 ++ [Action.selectCurrent lease]

/-- A slot that is being staged, and another one. -/
def orphaned : Option (Root (Fin 6) Bytes) :=
  (result ((build 2 3).take 4)).map fun sys =>
    { sys.root with slots := sys.root.slots.insert (text 5) (slot 5) }

/-- What is selected, and where an operation is. -/
def seen (operation : Fin 6) (sys : System (Fin 6) Bytes) : Option String × Option PublicationPhase :=
  (sys.root.current.map (·.publicationUuid),
    (sys.root.operations.lookup operation).bind fun dir => dir.journal.map (·.state.phase))

end Sample

end PublicationRoot
end NestWeaver
