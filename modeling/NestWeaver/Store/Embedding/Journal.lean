import Mathlib.Data.List.Sort
import NestWeaver.Framework.Framing
import NestWeaver.Store.Embedding.Index

/-!
# The embedding journal

The files of the embedding index: a base with all vectors of some moment, and a journal of the changes
since.  `GraphStore::flush_embedding_index` appends the pending changes to the journal while the base
is trusted, and else writes a new base, opens it and removes the journal (`Store.persist`).  Opening
loads the base and replays the journal (`reload`).

JSON and the hash of journal records are a parameter (`JournalCodec`).  Every file operation may fail,
and a file may be replaced although its replacement is reported as failed.
-/

set_option linter.all false

namespace NestWeaver
namespace Embedding

variable {F : Type*}

/-! ## The base -/

/-- The vector region is cut into rows of the dimension.  `intact` says whether the payload has the
digest of the envelope. -/
structure BaseFile (F : Type*) where
  envelope : EmbeddingArtifactEnvelopeV2
  rows : List (String × List F)
  intact : Bool
  rows_length : ∀ row ∈ rows, row.2.length = envelope.dimension

/-- Each UID is behind its length in two bytes. -/
def uidTableBytes (rows : List (String × List F)) : ℕ :=
  rows.foldr (fun row n => 2 + row.1.utf8ByteSize + n) 0

def maxUidBytes : ℕ := 65535

def checkEntries (dimension : ℕ) : List (String × List F) → Except String Unit
  | [] => .ok ()
  | entry :: entries =>
    if maxUidBytes < entry.1.utf8ByteSize then .error "embedding UID is too long"
    else if entry.2.length ≠ dimension then .error "embedding dimensions are mixed"
    else checkEntries dimension entries

lemma checkEntries_eq_ok {dimension : ℕ} {entries : List (String × List F)} {u : Unit} :
    checkEntries dimension entries = .ok u ↔
      ∀ entry ∈ entries, entry.1.utf8ByteSize ≤ maxUidBytes ∧ entry.2.length = dimension := by
  induction entries with
  | nil => simp [checkEntries]
  | cons entry entries ih =>
    rw [checkEntries, List.forall_mem_cons, ← ih]
    by_cases huid : maxUidBytes < entry.1.utf8ByteSize
    · simp [huid]
    · by_cases hsize : entry.2.length = dimension
      · simp [huid, hsize, Nat.le_of_not_lt huid]
      · simp [huid, hsize]

namespace EmbeddingIndex

/-- The live vectors in the order of their UIDs. -/
def snapshotEntries (index : EmbeddingIndex F) : List (String × List F) :=
  ((index.embeddings.entries.map fun entry => (entry.1, entry.2)) ++ index.liveRows).insertionSort
    fun left right => left.1 ≤ right.1

def requireRecordedPipeline (sha256 : EmbeddingPipelineV2 → String) (index : EmbeddingIndex F)
    (pipeline : EmbeddingPipelineV2) : Except String String :=
  match pipeline.fingerprint sha256 with
  | .error e => .error e
  | .ok persisted =>
    match index.recordedPipelineFingerprint with
    | none => .error "embedding index producer pipeline is unverified; refusing persistence"
    | some producer =>
      if producer = persisted then .ok persisted
      else .error ("embedding index producer pipeline fingerprint " ++ producer ++
        " does not match persistence fingerprint " ++ persisted)

/-- What is written as the new base. -/
def saveBinaryV2 (sha256 : EmbeddingPipelineV2 → String) (index : EmbeddingIndex F)
    (identity : PublicationIdentity) (pipeline : EmbeddingPipelineV2) :
    Except String (BaseFile F) :=
  match index.requireRecordedPipeline sha256 pipeline with
  | .error e => .error e
  | .ok _ =>
    if index.base.any (!·.payloadIntact) then .error "embedding v2 payload checksum mismatch"
    else
      let entries := index.snapshotEntries
      let dimension := index.dimension.getD 0
      if entries ≠ [] ∧ dimension ≠ pipeline.producedDimension then
        .error ("embedding pipeline dimension " ++ toString pipeline.producedDimension ++
          " does not match vector dimension " ++ toString dimension)
      else
        match h : checkEntries dimension entries with
        | .error e => .error e
        | .ok _ =>
          .ok
            { envelope :=
                { schemaVersion := 2
                  identity := identity
                  pipeline := pipeline
                  count := entries.length
                  dimension := dimension
                  uidTableBytes := uidTableBytes entries
                  vectorBytes := entries.length * dimension * 4 }
              rows := entries
              intact := true
              rows_length := fun row hrow => (checkEntries_eq_ok.mp h row hrow).2 }

end EmbeddingIndex

/-- The index over the rows of a file. -/
def BaseFile.mapped (file : BaseFile F) (fingerprint : String)
    (hnodup : (file.rows.map Prod.fst).Nodup) : EmbeddingIndex F where
  embeddings := ∅
  base := some
    { rows := file.rows
      dimension := file.envelope.dimension
      payloadIntact := file.intact
      nodup := hnodup
      rows_length := file.rows_length }
  deletedBaseUids := ∅
  forceCleared := false
  recordedModelId := some file.envelope.pipeline.modelId
  recordedPipelineFingerprint := some fingerprint
  recordedPipeline := some file.envelope.pipeline
  artifactEnvelope := some file.envelope
  pendingDeltas := []
  journalSequence := 0
  journalValidBytes := none

def loadBinaryV2 (sha256 : EmbeddingPipelineV2 → String) (file : BaseFile F) :
    Except String (EmbeddingIndex F) :=
  let envelope := file.envelope
  let rowBytes := envelope.dimension * 4
  if envelope.schemaVersion ≠ 2 then .error "unsupported embedding schema"
  else
    match envelope.pipeline.fingerprint sha256 with
    | .error e => .error e
    | .ok fingerprint =>
      if envelope.pipeline.producedDimension ≠ envelope.dimension then
        .error "embedding envelope pipeline dimension mismatch"
      else if uidTableBytes file.rows + file.rows.length * rowBytes ≠
          envelope.uidTableBytes + envelope.vectorBytes then
        .error "embedding v2 payload length mismatch"
      else if rowBytes = 0 then .error "embedding envelope has zero dimension"
      else if envelope.vectorBytes % rowBytes ≠ 0 then
        .error ("embedding vector region " ++ toString envelope.vectorBytes ++
          " is not a multiple of the row size " ++ toString rowBytes)
      else if envelope.count ≠ envelope.vectorBytes / rowBytes then
        .error ("implausible embedding count " ++ toString envelope.count ++
          ": vector region holds " ++ toString (envelope.vectorBytes / rowBytes) ++ " rows")
      else if envelope.uidTableBytes / 3 < envelope.count then
        .error ("implausible embedding count " ++ toString envelope.count ++
          ": uid table is only " ++ toString envelope.uidTableBytes ++ " bytes")
      else if file.rows.length ≠ envelope.count then .error "embedding UID count mismatch"
      else if envelope.vectorBytes ≠ file.rows.length * envelope.dimension * 4 then
        .error "embedding vector byte count mismatch"
      else if hnodup : (file.rows.map Prod.fst).Nodup then
        .ok (file.mapped fingerprint hnodup)
      else .error "duplicate embedding UID"

/-! ## The journal -/

structure EmbeddingJournalPayload (F : Type*) where
  sequence : ℕ
  identity : PublicationIdentity
  pipelineFingerprint : String
  delta : Delta String (List F)

structure EmbeddingJournalRecord (F : Type*) where
  payload : EmbeddingJournalPayload F
  checksum : String

/-- JSON of payloads and records, and the hash over that of a payload. -/
structure JournalCodec (F : Type*) where
  payloadBytes : EmbeddingJournalPayload F → List UInt8
  blake3 : List UInt8 → String
  recordBytes : EmbeddingJournalRecord F → List UInt8
  parseRecord : List UInt8 → Option (EmbeddingJournalRecord F)

def EmbeddingJournalPayload.seal (codec : JournalCodec F) (payload : EmbeddingJournalPayload F) :
    EmbeddingJournalRecord F :=
  ⟨payload, codec.blake3 (codec.payloadBytes payload)⟩

/-- `NWJ2` and its version. -/
def embeddingJournalMagic : List UInt8 := [0x4e, 0x57, 0x4a, 0x32, 0, 0, 0, 2]

def maxRecordBytes : ℕ := 2 ^ 32 - 1

/-- `u64::saturating_add(1)`. -/
def nextSequence (sequence : ℕ) : ℕ := min (sequence + 1) (2 ^ 64 - 1)

section Journal

variable (codec : JournalCodec F) (sha256 : EmbeddingPipelineV2 → String)
  (identity : PublicationIdentity)

/-- One record, on the index and the sequence number before it. -/
def replayRecord (expectedPipeline : String) (pipeline : EmbeddingPipelineV2)
    (state : EmbeddingIndex F × ℕ) (body : List UInt8) : Except String (EmbeddingIndex F × ℕ) :=
  let (index, previousSequence) := state
  match codec.parseRecord body with
  | none => .error "embedding journal record is no record"
  | some record =>
    let payload := record.payload
    if codec.blake3 (codec.payloadBytes payload) ≠ record.checksum then
      .error "embedding journal record checksum mismatch"
    else if payload.sequence ≠ nextSequence previousSequence then
      .error "embedding journal sequence gap"
    else if payload.identity ≠ identity ∨ payload.pipelineFingerprint ≠ expectedPipeline then
      .error "embedding journal identity or pipeline mismatch"
    else
      match payload.delta with
      | .clear =>
        .ok ({ index with embeddings := ∅, base := none, deletedBaseUids := ∅ }, payload.sequence)
      | .upsert uid vector =>
        if vector.length ≠ pipeline.producedDimension then
          .error "embedding journal vector dimension mismatch"
        else
          .ok ({ index with
              deletedBaseUids := index.deletedBaseUids.erase uid
              embeddings := index.embeddings.insert uid vector }, payload.sequence)
      | .delete uid =>
        .ok ({ index with
            embeddings := index.embeddings.erase uid
            deletedBaseUids :=
              if index.inBase uid then insert uid index.deletedBaseUids
              else index.deletedBaseUids }, payload.sequence)

/-- Records up to the first that is torn. -/
def replayJournalV2 (index : EmbeddingIndex F) (journal : Option (List UInt8))
    (pipeline : EmbeddingPipelineV2) : Except String (EmbeddingIndex F) :=
  match journal with
  | none => .ok index
  | some bytes =>
    if ¬embeddingJournalMagic <+: bytes then .error "invalid embedding journal header"
    else
      match pipeline.fingerprint sha256 with
      | .error e => .error e
      | .ok expectedPipeline =>
        let records := Framing.scan maxRecordBytes some (bytes.drop embeddingJournalMagic.length)
        match records.1.foldlM (replayRecord codec identity expectedPipeline pipeline) (index, 0) with
        | .error e => .error e
        | .ok (replayed, sequence) =>
          .ok { replayed with
            journalSequence := sequence
            journalValidBytes := some (bytes.length - records.2.length)
            pendingDeltas := [] }

/-- A pending change, with the vector as it is now. -/
def bindDelta (get : String → Option (List F)) :
    EmbeddingDelta → Except String (Delta String (List F))
  | .clear => .ok .clear
  | .upsert uid _ =>
    match get uid with
    | none => .error ("pending embedding upsert " ++ uid ++ " has no vector")
    | some vector => .ok (.upsert uid vector)
  | .delete uid => .ok (.delete uid)

/-- One pending change, at the end of the journal and behind this sequence number. -/
def encodeDelta (get : String → Option (List F)) (fingerprint : String)
    (state : List UInt8 × ℕ) (delta : EmbeddingDelta) : Except String (List UInt8 × ℕ) :=
  let (journal, previousSequence) := state
  match bindDelta get delta with
  | .error e => .error e
  | .ok bound =>
    let sequence := nextSequence previousSequence
    let encoded := codec.recordBytes
      (EmbeddingJournalPayload.seal codec ⟨sequence, identity, fingerprint, bound⟩)
    if maxRecordBytes < encoded.length then .error "embedding journal record too large"
    else .ok (journal ++ Framing.frame encoded, sequence)

/-! ## The files -/

structure Disk (F : Type*) where
  base : Option (BaseFile F)
  journal : Option (List UInt8)

structure Store (F : Type*) where
  index : EmbeddingIndex F
  disk : Disk F

/-- The file operation that fails.  A `sync` fails after the file was replaced or removed. -/
inductive Fault
  | readJournal | writeJournal | syncJournal
  | writeBase | syncBase | openBase
  | removeJournal | syncRemoval
  deriving DecidableEq, Repr

/-- Opening: without a base that loads, or with a journal that does not replay, nothing is there. -/
def reload (disk : Disk F) : EmbeddingIndex F :=
  match disk.base with
  | none => .new
  | some file =>
    match loadBinaryV2 sha256 file with
    | .error _ => .new
    | .ok loaded =>
      match replayJournalV2 codec sha256 identity loaded disk.journal file.envelope.pipeline with
      | .error _ => .new
      | .ok replayed => replayed

variable (fault : Option Fault)

/-- The number of records that were written. -/
def appendJournalV2 (s : Store F) (pipeline : EmbeddingPipelineV2) : Store F × Except String ℕ :=
  if s.index.pendingDeltas = [] then (s, .ok 0)
  else
    match s.index.requireRecordedPipeline sha256 pipeline with
    | .error e => (s, .error e)
    | .ok fingerprint =>
      if fault = some .readJournal then (s, .error "read embedding journal")
      else
        let journal := s.disk.journal.getD embeddingJournalMagic
        if ¬embeddingJournalMagic <+: journal then (s, .error "invalid embedding journal header")
        else
          let journal := s.index.journalValidBytes.elim journal journal.take
          -- an upsert that a later deletion supersedes is dropped
          let pending := (Delta.unsuperseded s.index.pendingDeltas).2
          let kept : Store F := { s with index := { s.index with pendingDeltas := pending } }
          match pending.foldlM (encodeDelta codec identity s.index.get fingerprint)
              (journal, s.index.journalSequence) with
          | .error e => (kept, .error e)
          | .ok (journal, sequence) =>
            if fault = some .writeJournal then (kept, .error "write embedding journal")
            else if fault = some .syncJournal then
              ({ kept with disk := { s.disk with journal := some journal } },
                .error "sync parent after replacing embedding journal")
            else
              ({ index :=
                  { s.index with
                    pendingDeltas := []
                    journalSequence := sequence
                    journalValidBytes := none }
                 disk := { s.disk with journal := some journal } },
                .ok pending.length)

def saveBase (s : Store F) (pipeline : EmbeddingPipelineV2) : Store F × Except String Unit :=
  match s.index.saveBinaryV2 sha256 identity pipeline with
  | .error e => (s, .error e)
  | .ok file =>
    if fault = some .writeBase then (s, .error "write embedding base")
    else
      let saved := { s with disk := { s.disk with base := some file } }
      if fault = some .syncBase then (saved, .error "sync parent after replacing embedding base")
      else (saved, .ok ())

/-- Nothing of the old index remains. -/
def adoptBinaryV2 (s : Store F) : Store F × Except String Unit :=
  match fault, s.disk.base with
  | some .openBase, _ => (s, .error "open embedding base")
  | _, none => (s, .error "open embedding base")
  | _, some file =>
    match loadBinaryV2 sha256 file with
    | .error e => (s, .error e)
    | .ok loaded =>
      ({ s with
        index :=
          { loaded with
            forceCleared := false
            pendingDeltas := []
            journalSequence := 0
            journalValidBytes := none } }, .ok ())

def retireJournal (s : Store F) : Store F × Except String Unit :=
  if fault = some .removeJournal then (s, .error "unlink embedding journal")
  else
    let retired := { s with disk := { s.disk with journal := none } }
    if fault = some .syncRemoval then (retired, .error "sync parent after unlinking embedding journal")
    else (retired, .ok ())

/-- Go on unless there was an error. -/
def andThen {ε : Type*} (r : Store F × Except ε Unit) (f : Store F → Store F × Except ε Unit) :
    Store F × Except ε Unit :=
  match r with
  | (s, .error e) => (s, .error e)
  | (s, .ok ()) => f s

/-- Persist with the recorded pipeline.  The new base may be opened before or after the journal is
removed. -/
def Store.persist (adoptFirst : Bool) (s : Store F) : Store F × Except String Unit :=
  if s.index.isEmpty ∧ s.index.pendingDeltas = [] then (s, .ok ())
  else
    match s.index.recordedPipeline with
    | none =>
      (s, .error "embedding vectors have no pipeline-v2 metadata; run a full re-embed")
    | some pipeline =>
      if s.disk.base.isSome ∧ s.index.artifactEnvelope.isSome then
        let (appended, result) := appendJournalV2 codec sha256 identity fault s pipeline
        (appended, result.map fun _ => ())
      else
        let saved := saveBase sha256 identity fault s pipeline
        if adoptFirst then andThen (andThen saved (adoptBinaryV2 sha256 fault)) (retireJournal fault)
        else andThen (andThen saved (retireJournal fault)) (adoptBinaryV2 sha256 fault)

end Journal

/-! ## Operations -/

inductive StoreOp (F : Type*)
  | index (op : Op F)
  | persist (adoptFirst : Bool) (fault : Option Fault)
  | crash

def Store.apply (codec : JournalCodec F) (sha256 : EmbeddingPipelineV2 → String)
    (identity : PublicationIdentity) (s : Store F) : StoreOp F → Store F
  | .index op => { s with index := op.apply sha256 s.index }
  | .persist adoptFirst fault => (s.persist codec sha256 identity fault adoptFirst).1
  | .crash => { s with index := reload codec sha256 identity s.disk }

def Store.step (codec : JournalCodec F) (sha256 : EmbeddingPipelineV2 → String)
    (identity : PublicationIdentity) (s : Store F) (op : StoreOp F) : Option (Store F) :=
  some (s.apply codec sha256 identity op)

/-- The store when it is opened. -/
def Store.opened (codec : JournalCodec F) (sha256 : EmbeddingPipelineV2 → String)
    (identity : PublicationIdentity) (disk : Disk F) : Store F :=
  ⟨reload codec sha256 identity disk, disk⟩

end Embedding
end NestWeaver
