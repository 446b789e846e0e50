import Mathlib.Data.Finset.Card
import Mathlib.Data.List.AList
import NestWeaver.Framework.DeltaLog
import NestWeaver.Framework.Strings
import NestWeaver.Framework.Transition

/-!
# The embedding index

`crates/nestweaver-store/src/search.rs`: vectors by UID, as an immutable base, the tombstones of its
deleted rows, and an overlay of newer vectors (`EmbeddingIndex.get`).  Every vector belongs to the
semantic space of the pipeline that is recorded, and two guards keep vectors of other spaces out
(`addWithPipeline`, `addWithModel`).  With force the index is cleared for a new space, once in a run.

The components of a vector are of any type, and so is the digest of a pipeline.
-/

set_option linter.all false

namespace NestWeaver
namespace Embedding

/-! ## Pipelines -/

inductive EmbeddingBackend
  | sentenceTransformersLocal | externalProvider
  deriving DecidableEq, Repr

inductive EmbeddingPoolingMode
  | cls | max | mean | meanSqrtLength | weightedMean | lastToken
  deriving DecidableEq, Repr

inductive EmbeddingSimilarity
  | cosine | dotProduct
  deriving DecidableEq, Repr

inductive EmbeddingTruncation
  | longestFirst | providerDefined | unknown
  deriving DecidableEq, Repr

inductive EmbeddingQuantization
  | float32
  deriving DecidableEq, Repr

/-- Exact semantic-space contract. -/
structure EmbeddingPipelineV2 where
  schemaVersion : ℕ
  backend : EmbeddingBackend
  provider : String
  modelId : String
  modelRevision : Option String
  weightsSha256 : Option String
  tokenizerSha256 : Option String
  tokenizerConfigSha256 : Option String
  modulesSha256 : Option String
  producedDimension : ℕ
  projectionDimension : Option ℕ
  pooling : List EmbeddingPoolingMode
  includePrompt : Option Bool
  normalize : Option Bool
  similarity : EmbeddingSimilarity
  maxSequenceLength : Option ℕ
  truncation : EmbeddingTruncation
  quantization : EmbeddingQuantization
  deriving DecidableEq, Repr

def embeddingPipelineSchemaVersion : ℕ := 2

/-- `trim().is_empty()`. -/
def isBlank (s : String) : Bool := s.toList.all isWhiteSpace

/-- `as_deref().is_none_or(str::is_empty)`. -/
def isAbsent (s : Option String) : Bool := s.all (· = "")

def EmbeddingPipelineV2.validate (p : EmbeddingPipelineV2) : Except String Unit :=
  if p.schemaVersion ≠ embeddingPipelineSchemaVersion then
    .error ("unsupported embedding pipeline schema " ++ toString p.schemaVersion)
  else if isBlank p.provider ∨ isBlank p.modelId then
    .error "embedding provider and model_id must be non-empty"
  else if p.producedDimension = 0 then .error "embedding produced_dimension must be non-zero"
  else if p.projectionDimension = some 0 then
    .error "embedding projection_dimension must be non-zero"
  else if p.backend = .sentenceTransformersLocal ∧
      (isAbsent p.modelRevision ∨ isAbsent p.weightsSha256 ∨ isAbsent p.tokenizerSha256 ∨
        isAbsent p.modulesSha256) then
    .error ("local embedding pipeline requires immutable revision, weights, tokenizer, " ++
      "and modules identities")
  else if p.backend = .sentenceTransformersLocal ∧ (p.pooling = [] ∨ p.normalize = none) then
    .error "local embedding pipeline requires declared pooling and normalization"
  else .ok ()

/-- The fingerprint of a valid pipeline.  The digest is that of its canonical form. -/
def EmbeddingPipelineV2.fingerprint (sha256 : EmbeddingPipelineV2 → String)
    (p : EmbeddingPipelineV2) : Except String String :=
  p.validate.map fun _ => "embedding-pipeline-v2:" ++ sha256 p

def EmbeddingPipelineV2.external (provider modelId : String) (dimension : ℕ) :
    EmbeddingPipelineV2 where
  schemaVersion := embeddingPipelineSchemaVersion
  backend := .externalProvider
  provider := provider
  modelId := modelId
  modelRevision := none
  weightsSha256 := none
  tokenizerSha256 := none
  tokenizerConfigSha256 := none
  modulesSha256 := none
  producedDimension := dimension
  projectionDimension := none
  pooling := []
  includePrompt := none
  normalize := none
  similarity := .cosine
  maxSequenceLength := none
  truncation := .providerDefined
  quantization := .float32

/-! ## The index -/

/-- What names the published graph that an artifact belongs to. -/
structure PublicationIdentity where
  brainUuid : String
  publicationUuid : String
  deriving DecidableEq, Repr

structure EmbeddingArtifactEnvelopeV2 where
  schemaVersion : ℕ
  identity : PublicationIdentity
  pipeline : EmbeddingPipelineV2
  count : ℕ
  dimension : ℕ
  uidTableBytes : ℕ
  vectorBytes : ℕ
  deriving DecidableEq, Repr

/-- The mapped rows.  `payloadIntact` says whether the payload has the digest of its envelope. -/
structure EmbeddingBase (F : Type*) where
  rows : List (String × List F)
  dimension : ℕ
  payloadIntact : Bool
  nodup : (rows.map Prod.fst).Nodup
  rows_length : ∀ row ∈ rows, row.2.length = dimension

abbrev EmbeddingDelta := Delta String Unit

/-- The similarity, which only ranking reads, is left out. -/
structure EmbeddingIndex (F : Type*) where
  embeddings : AList fun _ : String => List F
  base : Option (EmbeddingBase F)
  deletedBaseUids : Finset String
  forceCleared : Bool
  recordedModelId : Option String
  recordedPipelineFingerprint : Option String
  recordedPipeline : Option EmbeddingPipelineV2
  artifactEnvelope : Option EmbeddingArtifactEnvelopeV2
  pendingDeltas : List EmbeddingDelta
  journalSequence : ℕ
  journalValidBytes : Option ℕ

variable {F : Type*}

def EmbeddingBase.contains (base : EmbeddingBase F) (uid : String) : Prop :=
  uid ∈ base.rows.map Prod.fst

instance (base : EmbeddingBase F) (uid : String) : Decidable (base.contains uid) :=
  inferInstanceAs (Decidable (_ ∈ _))

namespace EmbeddingIndex

def new : EmbeddingIndex F := ⟨∅, none, ∅, false, none, none, none, none, [], 0, none⟩

variable (index : EmbeddingIndex F)

/-- The base has a row for the UID, hidden or not. -/
def inBase (uid : String) : Prop := ∃ base ∈ index.base, base.contains uid

instance (uid : String) : Decidable (index.inBase uid) :=
  inferInstanceAs (Decidable (∃ base ∈ index.base, _))

/-- Look up the embedding for a given UID. -/
def get (uid : String) : Option (List F) :=
  match index.embeddings.lookup uid with
  | some vector => some vector
  | none =>
    if uid ∈ index.deletedBaseUids then none
    else (index.base.filter (·.payloadIntact)).bind fun base => base.rows.lookup uid

def isEmpty : Bool :=
  if index.embeddings.entries ≠ [] then false
  else
    match index.base with
    | none => true
    | some base =>
      if index.deletedBaseUids.card < base.rows.length then false
      else !base.rows.any fun row => row.1 ∉ index.deletedBaseUids

/-- The length of the first vector found. -/
def dimension : Option ℕ :=
  (index.embeddings.entries.head?.map (·.2.length)).or (index.base.map (·.dimension))

/-- The base rows that nothing hides or shadows. -/
def liveRows : List (String × List F) :=
  (index.base.elim [] (·.rows)).filter fun row =>
    row.1 ∉ index.deletedBaseUids ∧ row.1 ∉ index.embeddings

def len : ℕ := index.liveRows.length + index.embeddings.keys.length

def allUids : List String := index.embeddings.keys ++ index.liveRows.map Prod.fst

/-! ## Adding -/

def clearSpace : EmbeddingIndex F :=
  { index with
    embeddings := ∅
    base := none
    deletedBaseUids := ∅
    pendingDeltas := index.pendingDeltas ++ [Delta.clear]
    forceCleared := true }

def upsert (uid : String) (vector : List F) : EmbeddingIndex F :=
  { index with
    deletedBaseUids := index.deletedBaseUids.erase uid
    embeddings := index.embeddings.insert uid vector
    pendingDeltas := index.pendingDeltas ++ [Delta.upsert uid ()] }

def record (fingerprint : String) (pipeline : EmbeddingPipelineV2) : EmbeddingIndex F :=
  { index with
    recordedPipelineFingerprint := some fingerprint
    recordedPipeline := some pipeline
    recordedModelId := some pipeline.modelId }

/-- The index, and whether the vector was accepted. -/
def addWithModel (uid : String) (vector : List F) (modelId : Option String) (force : Bool) :
    EmbeddingIndex F × Bool :=
  if (∃ recorded ∈ index.recordedModelId, ∃ incoming ∈ modelId, recorded ≠ incoming) ∧
      force = false then (index, false)
  else
    match index.dimension with
    | none => (index.upsert uid vector, true)
    | some existing =>
      if vector.length = existing then (index.upsert uid vector, true)
      else if force ∧ index.forceCleared = false then (index.clearSpace.upsert uid vector, true)
      else (index, false)

/-- The first guard: what it makes of the index, unless it rejects the vector. -/
def switchPipeline (incoming : String) (pipeline : EmbeddingPipelineV2) (force : Bool) :
    Option (EmbeddingIndex F) :=
  match index.recordedPipelineFingerprint with
  | none => some index
  | some recorded =>
    if recorded = incoming then some index
    else if index.isEmpty then some (index.record incoming pipeline)
    else if force = false then none
    else if index.forceCleared = false then some { index.clearSpace with artifactEnvelope := none }
    else none

def addWithPipeline (sha256 : EmbeddingPipelineV2 → String) (uid : String) (vector : List F)
    (pipeline : EmbeddingPipelineV2) (force : Bool) : EmbeddingIndex F × Bool :=
  match pipeline.fingerprint sha256 with
  | .error _ => (index, false)
  | .ok incoming =>
    if vector.length ≠ pipeline.producedDimension then (index, false)
    else
      match index.switchPipeline incoming pipeline force with
      | none => (index, false)
      | some switched =>
        match switched.addWithModel uid vector (some pipeline.modelId) force with
        | (added, true) => (added.record incoming pipeline, true)
        | (added, false) => (added, false)

def resetForceGuard : EmbeddingIndex F := { index with forceCleared := false }

/-! ## Removing -/

def tombstoneUid (uid : String) : EmbeddingIndex F :=
  let inBase := index.inBase uid ∧ uid ∉ index.deletedBaseUids
  { index with
    embeddings := index.embeddings.erase uid
    deletedBaseUids := if inBase then insert uid index.deletedBaseUids else index.deletedBaseUids
    pendingDeltas :=
      if uid ∈ index.embeddings ∨ inBase then index.pendingDeltas ++ [Delta.delete uid]
      else index.pendingDeltas }

/-- The index, and the number of vectors that were removed. -/
def tombstoneUids (deadUids : List String) : EmbeddingIndex F × ℕ :=
  let after := deadUids.foldl tombstoneUid index
  (after, index.len - after.len)

def removeUid (uid : String) : EmbeddingIndex F :=
  { index with
    embeddings := index.embeddings.erase uid
    deletedBaseUids :=
      if index.inBase uid then insert uid index.deletedBaseUids else index.deletedBaseUids
    pendingDeltas := index.pendingDeltas ++ [Delta.delete uid] }

def retainUids (liveUids : Finset String) : EmbeddingIndex F × ℕ :=
  let after := (index.allUids.filter (· ∉ liveUids)).foldl removeUid index
  (after, index.len - after.len)

/-- `(live, tombstoned, stored)` without a scan of the base. -/
def occupancy : ℕ × ℕ × ℕ :=
  let baseRows := index.base.elim 0 (·.rows.length)
  let tombstoned := index.deletedBaseUids.card
  let overlayOnly := (index.embeddings.keys.filter fun uid => ¬index.inBase uid).length
  let stored := baseRows + overlayOnly
  (stored - tombstoned, tombstoned, stored)

end EmbeddingIndex

/-! ## Operations -/

inductive Op (F : Type*)
  | addWithPipeline (uid : String) (vector : List F) (pipeline : EmbeddingPipelineV2) (force : Bool)
  | resetForceGuard
  | tombstoneUids (deadUids : List String)
  | retainUids (liveUids : Finset String)

def Op.apply (sha256 : EmbeddingPipelineV2 → String) (index : EmbeddingIndex F) :
    Op F → EmbeddingIndex F
  | .addWithPipeline uid vector pipeline force =>
    (index.addWithPipeline sha256 uid vector pipeline force).1
  | .resetForceGuard => index.resetForceGuard
  | .tombstoneUids deadUids => (index.tombstoneUids deadUids).1
  | .retainUids liveUids => (index.retainUids liveUids).1

/-! ## What is live after an operation -/

namespace EmbeddingIndex

variable {index : EmbeddingIndex F} {uid uid' : String} {vector : List F}

lemma lookup_rows_eq_none {base : EmbeddingBase F} :
    base.rows.lookup uid = none ↔ ¬base.contains uid := by
  rw [List.lookup_eq_none_iff, EmbeddingBase.contains, List.mem_map]
  constructor
  · rintro h ⟨row, hrow, rfl⟩
    simpa using h row hrow
  · intro h row hrow
    have hne : uid ≠ row.1 := fun heq => h ⟨row, hrow, heq.symm⟩
    simpa using hne

lemma get_of_mem (h : index.embeddings.lookup uid = some vector) : index.get uid = some vector := by
  rw [get, h]

lemma get_of_deleted (hoverlay : uid ∉ index.embeddings) (h : uid ∈ index.deletedBaseUids) :
    index.get uid = none := by
  rw [get, AList.lookup_eq_none.mpr hoverlay]
  exact if_pos h

lemma get_of_not_inBase (hoverlay : uid ∉ index.embeddings) (h : ¬index.inBase uid) :
    index.get uid = none := by
  rw [get, AList.lookup_eq_none.mpr hoverlay]
  dsimp only
  by_cases hdeleted : uid ∈ index.deletedBaseUids
  · rw [if_pos hdeleted]
  · rw [if_neg hdeleted, Option.bind_eq_none_iff]
    intro base hbase
    have hmem : index.base = some base := (Option.filter_eq_some_iff.mp hbase).1
    exact lookup_rows_eq_none.mpr fun hcontains => h ⟨base, hmem, hcontains⟩

/-- A live vector is in the overlay, or in a row of the base that is not hidden. -/
lemma get_eq_some (h : index.get uid = some vector) :
    index.embeddings.lookup uid = some vector ∨ (uid ∉ index.embeddings ∧
      uid ∉ index.deletedBaseUids ∧ ∃ base, index.base = some base ∧ (uid, vector) ∈ base.rows) := by
  rw [get] at h
  cases hoverlay : index.embeddings.lookup uid with
  | some vector' =>
    rw [hoverlay] at h
    exact .inl h
  | none =>
    rw [hoverlay] at h
    dsimp only at h
    by_cases hdeleted : uid ∈ index.deletedBaseUids
    · rw [if_pos hdeleted] at h
      cases h
    · rw [if_neg hdeleted] at h
      obtain ⟨base, hbase, hrow⟩ := Option.bind_eq_some_iff.mp h
      obtain ⟨front, back, hrows, -⟩ := List.lookup_eq_some_iff.mp hrow
      refine .inr ⟨AList.lookup_eq_none.mp hoverlay, hdeleted, base,
        (Option.filter_eq_some_iff.mp hbase).1, ?_⟩
      rw [hrows]
      exact List.mem_append_right _ List.mem_cons_self

lemma get_of_row {base : EmbeddingBase F} (hbase : index.base = some base)
    (hintact : base.payloadIntact = true) (hoverlay : uid ∉ index.embeddings)
    (hdeleted : uid ∉ index.deletedBaseUids) (hrow : (uid, vector) ∈ base.rows) :
    index.get uid = some vector := by
  obtain ⟨vector', hlookup⟩ : ∃ vector', base.rows.lookup uid = some vector' := by
    rw [← Option.ne_none_iff_exists', Ne, lookup_rows_eq_none]
    exact not_not_intro (List.mem_map_of_mem hrow)
  obtain ⟨front, back, hrows, -⟩ := List.lookup_eq_some_iff.mp hlookup
  have hmem : (uid, vector') ∈ base.rows := by
    rw [hrows]
    exact List.mem_append_right _ List.mem_cons_self
  obtain rfl := (Prod.mk.inj (List.inj_on_of_nodup_map base.nodup hrow hmem rfl)).2
  simp only [get, AList.lookup_eq_none.mpr hoverlay, if_neg hdeleted, hbase, Option.filter, hintact, if_true,
    Option.bind_some, hlookup]

/-- A vector in the overlay is found, and the others are as before. -/
lemma get_store {index' : EmbeddingIndex F}
    (hembeddings : index'.embeddings = index.embeddings.insert uid vector)
    (hbase : index'.base = index.base)
    (hdeleted : index'.deletedBaseUids = index.deletedBaseUids.erase uid) :
    index'.get = Function.update index.get uid (some vector) := by
  funext uid'
  by_cases h : uid' = uid
  · subst h
    rw [Function.update_self]
    exact get_of_mem (by rw [hembeddings, AList.lookup_insert])
  · have hsame : uid' ∈ index.deletedBaseUids.erase uid ↔ uid' ∈ index.deletedBaseUids :=
      Finset.mem_erase.trans (and_iff_right h)
    rw [Function.update_of_ne h]
    simp only [get, hembeddings, hbase, hdeleted, AList.lookup_insert_ne h, hsame]

lemma get_upsert : (index.upsert uid vector).get = Function.update index.get uid (some vector) :=
  get_store rfl rfl rfl

@[simp] lemma get_upsert_self : (index.upsert uid vector).get uid = some vector := by
  rw [get_upsert, Function.update_self]

lemma get_upsert_of_ne (h : uid' ≠ uid) : (index.upsert uid vector).get uid' = index.get uid' := by
  rw [get_upsert, Function.update_of_ne h]

@[simp] lemma get_clearSpace : index.clearSpace.get uid = none :=
  get_of_not_inBase (AList.notMem_empty _) nofun

@[simp] lemma get_record (fingerprint : String) (pipeline : EmbeddingPipelineV2) :
    (index.record fingerprint pipeline).get uid = index.get uid := rfl

lemma get_congr {index' : EmbeddingIndex F} (hembeddings : index'.embeddings = index.embeddings)
    (hbase : index'.base = index.base) (hdeleted : index'.deletedBaseUids = index.deletedBaseUids) :
    index'.get = index.get := by
  funext uid
  rw [get, get, hembeddings, hbase, hdeleted]

/-- Hiding a row and dropping its overlay entry leaves the other vectors in place. -/
lemma get_hide {index' : EmbeddingIndex F} (hembeddings : index'.embeddings = index.embeddings.erase uid)
    (hbase : index'.base = index.base)
    (hdeleted : ∀ uid', uid' ∈ index'.deletedBaseUids ↔
      uid' ∈ index.deletedBaseUids ∨ (uid' = uid ∧ index.inBase uid)) :
    index'.get = Function.update index.get uid none := by
  funext uid'
  by_cases h : uid' = uid
  · subst h
    rw [Function.update_self]
    have hoverlay : uid' ∉ index'.embeddings := by simp [hembeddings]
    by_cases hrow : index.inBase uid'
    · exact get_of_deleted hoverlay ((hdeleted uid').mpr (.inr ⟨rfl, hrow⟩))
    · refine get_of_not_inBase hoverlay ?_
      rwa [inBase, hbase]
  · rw [Function.update_of_ne h]
    have hsame : uid' ∈ index'.deletedBaseUids ↔ uid' ∈ index.deletedBaseUids := by
      simp [hdeleted uid', h]
    simp only [get, hembeddings, hbase, AList.lookup_erase_ne h, hsame]

lemma mem_deleted_tombstoneUid : uid' ∈ (index.tombstoneUid uid).deletedBaseUids ↔
    uid' ∈ index.deletedBaseUids ∨ (uid' = uid ∧ index.inBase uid) := by
  by_cases h : index.inBase uid ∧ uid ∉ index.deletedBaseUids
  · have hdeleted : (index.tombstoneUid uid).deletedBaseUids = insert uid index.deletedBaseUids :=
      if_pos h
    rw [hdeleted, Finset.mem_insert, or_comm, and_iff_left h.1]
  · have hdeleted : (index.tombstoneUid uid).deletedBaseUids = index.deletedBaseUids := if_neg h
    rw [hdeleted]
    constructor
    · exact .inl
    · rintro (hmem | ⟨rfl, hrow⟩)
      · exact hmem
      · by_contra hmem
        exact h ⟨hrow, hmem⟩

lemma mem_deleted_insert : uid' ∈ (if index.inBase uid then insert uid index.deletedBaseUids
    else index.deletedBaseUids) ↔ uid' ∈ index.deletedBaseUids ∨ (uid' = uid ∧ index.inBase uid) := by
  by_cases h : index.inBase uid
  · rw [if_pos h, Finset.mem_insert, or_comm, and_iff_left h]
  · rw [if_neg h]
    simp [h]

lemma get_tombstoneUid : (index.tombstoneUid uid).get = Function.update index.get uid none :=
  get_hide rfl rfl fun _ => mem_deleted_tombstoneUid

lemma get_removeUid : (index.removeUid uid).get = Function.update index.get uid none :=
  get_hide rfl rfl fun _ => mem_deleted_insert

/-- The shortcut over the counts is exact. -/
lemma isEmpty_iff : index.isEmpty = true ↔ index.embeddings.entries = [] ∧
    ∀ base, index.base = some base → ∀ row ∈ base.rows, row.1 ∈ index.deletedBaseUids := by
  rw [isEmpty]
  by_cases hoverlay : index.embeddings.entries = []
  · rw [if_neg (not_not_intro hoverlay)]
    cases hbase : index.base with
    | none => simp [hoverlay]
    | some base =>
      dsimp only
      by_cases hcard : index.deletedBaseUids.card < base.rows.length
      · rw [if_pos hcard]
        refine iff_of_false Bool.false_ne_true fun h => ?_
        -- distinct rows outnumber the tombstones
        have hsub : (base.rows.map Prod.fst).toFinset ⊆ index.deletedBaseUids := by
          intro uid huid
          obtain ⟨row, hrow, rfl⟩ := List.mem_map.mp (List.mem_toFinset.mp huid)
          exact h.2 base rfl row hrow
        have hle := Finset.card_le_card hsub
        rw [List.toFinset_card_of_nodup base.nodup, List.length_map] at hle
        omega
      · rw [if_neg hcard]
        simp [hoverlay]
  · rw [if_pos hoverlay]
    simp [hoverlay]

lemma get_of_isEmpty (h : index.isEmpty = true) : index.get uid = none := by
  obtain ⟨hoverlay, hrows⟩ := isEmpty_iff.mp h
  by_contra hlive
  obtain ⟨vector, hvector⟩ := Option.ne_none_iff_exists'.mp hlive
  obtain hmem | ⟨-, hdeleted, base, hbase, hrow⟩ := get_eq_some hvector
  · have hkey := AList.lookup_isSome.mp (by rw [hmem]; rfl)
    rw [AList.mem_keys, AList.keys, hoverlay] at hkey
    cases hkey
  · exact hdeleted (hrows base hbase _ hrow)

/-! ## What the guards do -/

/-- What the guards make of the index for a vector that is accepted. -/
inductive Admitted (index : EmbeddingIndex F) (incoming : String) (pipeline : EmbeddingPipelineV2)
    (size : ℕ) (force : Bool) : EmbeddingIndex F → Prop
  | same (hrecorded : ∀ r, index.recordedPipelineFingerprint = some r → r = incoming)
      (hsize : ∀ d, index.dimension = some d → size = d) :
      Admitted index incoming pipeline size force index
  | resized (d : ℕ) (hrecorded : ∀ r, index.recordedPipelineFingerprint = some r → r = incoming)
      (hd : index.dimension = some d) (hsize : size ≠ d) (hforce : force = true)
      (hguard : index.forceCleared = false) :
      Admitted index incoming pipeline size force index.clearSpace
  | adopted (r : String) (hr : index.recordedPipelineFingerprint = some r) (hne : r ≠ incoming)
      (hempty : index.isEmpty = true) (hsize : ∀ d, index.dimension = some d → size = d) :
      Admitted index incoming pipeline size force (index.record incoming pipeline)
  | adoptedResized (r : String) (hr : index.recordedPipelineFingerprint = some r)
      (hne : r ≠ incoming) (hempty : index.isEmpty = true) (hforce : force = true)
      (hguard : index.forceCleared = false) :
      Admitted index incoming pipeline size force (index.record incoming pipeline).clearSpace
  | switched (r : String) (hr : index.recordedPipelineFingerprint = some r) (hne : r ≠ incoming)
      (hempty : index.isEmpty = false) (hforce : force = true)
      (hguard : index.forceCleared = false) :
      Admitted index incoming pipeline size force { index.clearSpace with artifactEnvelope := none }

lemma addWithModel_admitted {modelId : Option String} {force : Bool} {added : EmbeddingIndex F}
    (h : index.addWithModel uid vector modelId force = (added, true)) :
    (∀ d, index.dimension = some d → vector.length = d) ∧ added = index.upsert uid vector ∨
      (∃ d, index.dimension = some d ∧ vector.length ≠ d) ∧ force = true ∧
        index.forceCleared = false ∧ added = index.clearSpace.upsert uid vector := by
  rw [addWithModel] at h
  split at h
  · cases h
  · cases hd : index.dimension with
    | none =>
      rw [hd] at h
      exact .inl ⟨nofun, (congrArg Prod.fst h).symm⟩
    | some existing =>
      rw [hd] at h
      dsimp only at h
      by_cases hsize : vector.length = existing
      · rw [if_pos hsize] at h
        refine .inl ⟨fun d hd' => ?_, (congrArg Prod.fst h).symm⟩
        obtain rfl := Option.some.inj hd'
        exact hsize
      · rw [if_neg hsize] at h
        by_cases hforce : force ∧ index.forceCleared = false
        · rw [if_pos hforce] at h
          exact .inr ⟨⟨existing, rfl, hsize⟩, hforce.1, hforce.2, (congrArg Prod.fst h).symm⟩
        · rw [if_neg hforce] at h
          cases h

/-- A rejected vector leaves the index as it was. -/
lemma addWithModel_rejected {modelId : Option String} {force : Bool} {added : EmbeddingIndex F}
    (h : index.addWithModel uid vector modelId force = (added, false)) : added = index := by
  rw [addWithModel] at h
  split at h
  · exact (congrArg Prod.fst h).symm
  · cases hd : index.dimension with
    | none =>
      rw [hd] at h
      cases h
    | some existing =>
      rw [hd] at h
      dsimp only at h
      split at h
      · cases h
      · split at h
        · cases h
        · exact (congrArg Prod.fst h).symm

variable {sha256 : EmbeddingPipelineV2 → String} {pipeline : EmbeddingPipelineV2} {force : Bool}

lemma switchPipeline_eq_some {incoming : String} {switched : EmbeddingIndex F}
    (h : index.switchPipeline incoming pipeline force = some switched) :
    ((∀ r, index.recordedPipelineFingerprint = some r → r = incoming) ∧ switched = index) ∨
      ∃ r, index.recordedPipelineFingerprint = some r ∧ r ≠ incoming ∧
        ((index.isEmpty = true ∧ switched = index.record incoming pipeline) ∨
          (index.isEmpty = false ∧ force = true ∧ index.forceCleared = false ∧
            switched = { index.clearSpace with artifactEnvelope := none })) := by
  rw [switchPipeline] at h
  cases hr : index.recordedPipelineFingerprint with
  | none =>
    rw [hr] at h
    exact .inl ⟨nofun, (Option.some.inj h).symm⟩
  | some r =>
    rw [hr] at h
    dsimp only at h
    by_cases hne : r = incoming
    · rw [if_pos hne] at h
      refine .inl ⟨fun r' hr' => ?_, (Option.some.inj h).symm⟩
      rw [← Option.some.inj hr', hne]
    · rw [if_neg hne] at h
      refine .inr ⟨r, rfl, hne, ?_⟩
      by_cases hempty : index.isEmpty = true
      · rw [if_pos hempty] at h
        exact .inl ⟨hempty, (Option.some.inj h).symm⟩
      · rw [if_neg hempty] at h
        by_cases hforce : force = false
        · rw [if_pos hforce] at h
          cases h
        · rw [if_neg hforce] at h
          by_cases hguard : index.forceCleared = false
          · rw [if_pos hguard] at h
            exact .inr ⟨Bool.eq_false_iff.mpr hempty, Bool.not_eq_false _ ▸ hforce, hguard,
              (Option.some.inj h).symm⟩
          · rw [if_neg hguard] at h
            cases h

/-- A cleared index accepts the vector that it was cleared for. -/
lemma addWithModel_of_none {modelId : Option String} (hdimension : index.dimension = none)
    (hforce : force = true) :
    index.addWithModel uid vector modelId force = (index.upsert uid vector, true) := by
  rw [addWithModel, if_neg (by simp [hforce]), hdimension]

lemma admitted_of_switch {incoming : String} {modelId : Option String}
    {switched added : EmbeddingIndex F}
    (hswitch : index.switchPipeline incoming pipeline force = some switched)
    (hadded : switched.addWithModel uid vector modelId force = (added, true)) :
    ∃ start, Admitted index incoming pipeline vector.length force start ∧
      added = start.upsert uid vector := by
  obtain ⟨hrecorded, rfl⟩ | ⟨r, hr, hne, ⟨hempty, rfl⟩ | ⟨hempty, hforce, hguard, rfl⟩⟩ :=
    switchPipeline_eq_some hswitch
  · obtain ⟨hsize, rfl⟩ | ⟨⟨d, hd, hsize⟩, hforce, hguard, rfl⟩ := addWithModel_admitted hadded
    · exact ⟨_, .same hrecorded hsize, rfl⟩
    · exact ⟨_, .resized d hrecorded hd hsize hforce hguard, rfl⟩
  · obtain ⟨hsize, rfl⟩ | ⟨-, hforce, hguard, rfl⟩ := addWithModel_admitted hadded
    · exact ⟨_, .adopted r hr hne hempty hsize, rfl⟩
    · exact ⟨_, .adoptedResized r hr hne hempty hforce hguard, rfl⟩
  · rw [addWithModel_of_none rfl hforce] at hadded
    exact ⟨_, .switched r hr hne hempty hforce hguard, (congrArg Prod.fst hadded).symm⟩

/-- What becomes of a vector that is added: it is stored in what the guards made of the index, or
rejected, with a new pipeline recorded at most if no vector is live. -/
lemma addWithPipeline_cases (sha256 : EmbeddingPipelineV2 → String) (index : EmbeddingIndex F)
    (uid : String) (vector : List F) (pipeline : EmbeddingPipelineV2) (force : Bool) :
    (∃ incoming start, pipeline.fingerprint sha256 = .ok incoming ∧
      vector.length = pipeline.producedDimension ∧
      Admitted index incoming pipeline vector.length force start ∧
      index.addWithPipeline sha256 uid vector pipeline force =
        ((start.upsert uid vector).record incoming pipeline, true)) ∨
    index.addWithPipeline sha256 uid vector pipeline force = (index, false) ∨
    ∃ incoming r, pipeline.fingerprint sha256 = .ok incoming ∧
      index.recordedPipelineFingerprint = some r ∧ r ≠ incoming ∧ index.isEmpty = true ∧
      index.addWithPipeline sha256 uid vector pipeline force =
        (index.record incoming pipeline, false) := by
  rw [addWithPipeline]
  cases hincoming : pipeline.fingerprint sha256 with
  | error => exact .inr (.inl rfl)
  | ok incoming =>
    dsimp only
    by_cases hsize : vector.length = pipeline.producedDimension
    · rw [if_neg (not_not_intro hsize)]
      cases hswitch : index.switchPipeline incoming pipeline force with
      | none => exact .inr (.inl rfl)
      | some switched =>
        dsimp only
        match hadded : switched.addWithModel uid vector (some pipeline.modelId) force with
        | (added, false) =>
          obtain rfl := addWithModel_rejected hadded
          obtain ⟨-, rfl⟩ | ⟨r, hr, hne, ⟨hempty, rfl⟩ | ⟨-, hforce, -, rfl⟩⟩ :=
            switchPipeline_eq_some hswitch
          · exact .inr (.inl rfl)
          · exact .inr (.inr ⟨incoming, r, rfl, hr, hne, hempty, rfl⟩)
          · cases hadded.symm.trans (addWithModel_of_none rfl hforce)
        | (added, true) =>
          obtain ⟨start, hstart, rfl⟩ := admitted_of_switch hswitch hadded
          exact .inl ⟨incoming, start, rfl, hsize, hstart, rfl⟩
    · exact .inr (.inl (if_pos hsize))

end EmbeddingIndex

end Embedding
end NestWeaver
