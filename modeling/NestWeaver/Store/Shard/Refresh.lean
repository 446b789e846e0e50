import Mathlib.Data.List.Sort
import Mathlib.Logic.Function.Basic
import NestWeaver.Framework.Load
import NestWeaver.Framework.MapOrder
import NestWeaver.Store.Regex.Trigram
import NestWeaver.Store.Shard.Scope

/-!
# Refreshes of a regex shard

`crates/nestweaver-store/src/regex.rs`, `write.rs` and `regex_index.rs`, on one active scope: writers
change its text and advance its desired epoch in one transaction, and refreshes read the epoch and
the candidates, build a shard or change a copy of the selected one, publish it and acknowledge the
epoch.  A refresh is cut into steps, and anything may happen between two of them.

The hashes are parameters.  The candidates are collected by a load, which reads the graph several
times.
-/

set_option linter.all false

namespace NestWeaver
namespace RegexRefresh

open Shard (ShardMetadata regexIndexSchemaVersion regexTokenizerFingerprint)

/-! ## Candidates and documents -/

structure Candidate where
  uid : String
  kind : String
  location : String
  text : String
  deriving DecidableEq, Repr

structure DocumentIdentity where
  kind : String
  uid : String
  deriving DecidableEq, Repr

structure ShardDocument where
  uid : String
  kind : String
  path : String
  textHash : String
  trigrams : Finset (List Char)
  deriving DecidableEq

def ShardDocument.identity (d : ShardDocument) : DocumentIdentity := ⟨d.kind, d.uid⟩

def Candidate.identity (c : Candidate) : DocumentIdentity := ⟨c.kind, c.uid⟩

/-- The part before the last colon, if only digits follow it. -/
def fileOf (location : String) : String :=
  let reversed := location.toList.reverse
  let digits := reversed.takeWhile (· ≠ ':')
  match reversed.dropWhile (· ≠ ':') with
  | _ :: front => if digits.all Char.isDigit then String.ofList front.reverse else location
  | [] => location

def sortByUid (candidates : List Candidate) : List Candidate :=
  candidates.insertionSort fun a b => a.uid ≤ b.uid

def candidatePath (c : Candidate) : String :=
  if c.kind = "Note" then c.location else fileOf c.location

/-- The hashes of `blake3`, and the case fold. -/
structure Hashing where
  textHash : String → String
  documentHash : (textHash kind path : String) → String
  digest : List (String × String) → String
  lower : Char → List Char

namespace Hashing

variable (H : Hashing)

def candidateDocumentHash (c : Candidate) : String :=
  H.documentHash (H.textHash c.text) c.kind (candidatePath c)

def candidateDigest (candidates : List Candidate) : String :=
  H.digest (candidates.map fun c => (c.uid, H.candidateDocumentHash c))

/-- `desired_documents`: of candidates with one identity the last counts. -/
def desiredDocuments (candidates : List Candidate) (identity : DocumentIdentity) : Option String :=
  (lastOf Candidate.identity candidates identity).map H.candidateDocumentHash

def document (candidates : List Candidate) (c : Candidate) : ShardDocument where
  uid := c.uid
  kind := c.kind
  path := candidatePath c
  textHash := (H.desiredDocuments candidates c.identity).getD ""
  trigrams := Regex.trigrams H.lower c.text.toList

/-- The documents of a shard with these candidates. -/
def documents (candidates : List Candidate) : List ShardDocument :=
  candidates.map (H.document candidates)

end Hashing

/-! ## The state of the scope -/

def i64Max : ℕ := 9223372036854775807

structure ScopeState where
  desiredEpoch : ℕ
  acknowledgedEpoch : ℕ
  candidateCount : ℕ
  candidateDigest : String
  tombstone : Bool
  deriving DecidableEq, Repr

structure PublicationIdentity where
  brainUuid : String
  publicationUuid : String
  deriving DecidableEq, Repr

def regexShardTrusted (metadata : ShardMetadata) (state : ScopeState)
    (identity : PublicationIdentity) (graphGeneration : ℕ) : Bool :=
  !state.tombstone
    && state.desiredEpoch == state.acknowledgedEpoch
    && metadata.schemaVersion == regexIndexSchemaVersion
    && metadata.tokenizerFingerprint == regexTokenizerFingerprint
    && metadata.brainUuid == identity.brainUuid
    && metadata.publicationUuid == identity.publicationUuid
    && decide (metadata.sourceGraphGeneration ≤ graphGeneration)
    && metadata.scopeEpoch == state.acknowledgedEpoch
    && metadata.candidateCount == state.candidateCount
    && metadata.candidateDigest == state.candidateDigest

def markRegexScopeDirty (state : Option ScopeState) (tombstone : Bool) : ScopeState :=
  let (desired, acknowledged, count, digest) :=
    match state with
    | none => (0, 0, 0, "")
    | some s => (s.desiredEpoch, s.acknowledgedEpoch, s.candidateCount, s.candidateDigest)
  ⟨min (desired + 1) i64Max, acknowledged, count, digest, tombstone⟩

inductive RegexAck
  | acknowledged (state : ScopeState)
  | superseded (desired : ℕ)
  deriving DecidableEq, Repr

/-- The acknowledgement of an epoch; an error is a mismatch that is no newer epoch. -/
def acknowledgeRegexScope (state : Option ScopeState) (epoch count : ℕ) (digest : String) :
    Option RegexAck :=
  match state with
  | none => none
  | some s =>
    if epoch < s.desiredEpoch then some (.superseded s.desiredEpoch)
    else if s.desiredEpoch ≠ epoch ∨ s.tombstone then none
    else some (.acknowledged ⟨min epoch i64Max, min epoch i64Max, count, digest, false⟩)

/-! ## Shards -/

/-- A shard generation that opens: its metadata and its documents. -/
structure Generation where
  metadata : ShardMetadata
  documents : List ShardDocument
  deriving DecidableEq

/-- The hashes by identity; an error when the documents do not fit the metadata. -/
def documentHashes : Option Generation → Option (Option (List (DocumentIdentity × String)))
  | none => some none
  | some g =>
    if g.documents.any (fun d => d.uid = "" || d.kind = "" || d.textHash = "")
        || !decide (g.documents.map ShardDocument.identity).Nodup
        || g.documents.length ≠ g.metadata.candidateCount then none
    else some (some (g.documents.map fun d => (d.identity, d.textHash)))

def prepareReplaceScope (metadata : ShardMetadata) (documents : List ShardDocument) :
    Option Generation :=
  if metadata.schemaVersion ≠ regexIndexSchemaVersion ∨
      metadata.tokenizerFingerprint ≠ regexTokenizerFingerprint ∨
      metadata.candidateCount ≠ documents.length then none
  else some ⟨metadata, documents⟩

/-- Deletions, and the documents of the upserts in place of those with their identities. -/
def applyDelta (documents upserts : List ShardDocument) (deletes : List DocumentIdentity) :
    List ShardDocument :=
  documents.filter (fun d => d.identity ∉ deletes ++ upserts.map ShardDocument.identity) ++ upserts

def prepareUpdateScope (current : Option Generation) (previous metadata : ShardMetadata)
    (upserts : List ShardDocument) (deletes : List DocumentIdentity) : Option Generation :=
  if metadata.schemaVersion ≠ regexIndexSchemaVersion ∨
      metadata.tokenizerFingerprint ≠ regexTokenizerFingerprint ∨
      metadata.scopeUid ≠ previous.scopeUid then none
  else
    match current with
    | none => none
    | some g =>
      let documents := applyDelta g.documents upserts deletes
      if g.metadata ≠ previous ∨ documents.length ≠ metadata.candidateCount then none
      else some ⟨metadata, documents⟩

/-! ## One refresh -/

/-- What a refresh has read when it comes to the scope. -/
structure Plan where
  forceFull : Bool
  prior : Option ShardMetadata
  state : Option ScopeState
  graphGeneration : ℕ
  epoch : ℕ
  deriving DecidableEq

def compatibleBase (identity : PublicationIdentity) (metadata : ShardMetadata) : Bool :=
  metadata.schemaVersion == regexIndexSchemaVersion
    && metadata.tokenizerFingerprint == regexTokenizerFingerprint
    && metadata.brainUuid == identity.brainUuid
    && metadata.publicationUuid == identity.publicationUuid

section Code

variable (H : Hashing) (identity : PublicationIdentity) (scopeUid : String)

/-- Nothing is to be done. -/
def Plan.unchanged (plan : Plan) (candidates : List Candidate) : Bool :=
  let digest := H.candidateDigest candidates
  let compatible := plan.prior.any fun m => compatibleBase identity m
    && m.candidateCount == candidates.length && m.candidateDigest == digest
    && m.scopeEpoch == plan.epoch
  let graphAcknowledged := plan.state.any fun s => s.desiredEpoch == plan.epoch
    && s.acknowledgedEpoch == plan.epoch && !s.tombstone
    && s.candidateCount == candidates.length && s.candidateDigest == digest
  let searchTrusts := plan.prior.any fun m => plan.state.any fun s =>
    regexShardTrusted m s identity plan.graphGeneration
  compatible && graphAcknowledged && searchTrusts && !plan.forceFull

def Plan.metadata (plan : Plan) (candidates : List Candidate) (graphGeneration : ℕ) :
    ShardMetadata where
  schemaVersion := regexIndexSchemaVersion
  tokenizerFingerprint := regexTokenizerFingerprint
  brainUuid := identity.brainUuid
  publicationUuid := identity.publicationUuid
  sourceGraphGeneration := graphGeneration
  scopeUid := scopeUid
  scopeEpoch := plan.epoch
  candidateCount := candidates.length
  candidateDigest := H.candidateDigest candidates

/-- The shard of the candidates: a copy of the selected one with the changed documents, where its
documents could be read, and else a new one. -/
def Plan.prepare (plan : Plan) (candidates : List Candidate)
    (priorDocuments : Option (Option (List (DocumentIdentity × String)))) (graphGeneration : ℕ)
    (current : Option Generation) : Option Generation :=
  let metadata := plan.metadata H identity scopeUid candidates graphGeneration
  match plan.prior, priorDocuments with
  | some prior, some hashes =>
    if !plan.forceFull && compatibleBase identity prior then
      let hashes := hashes.getD []
      let changed := candidates.filter fun c =>
        hashes.lookup c.identity ≠ H.desiredDocuments candidates c.identity
      let deleted := (hashes.map Prod.fst).filter fun identity =>
        (H.desiredDocuments candidates identity).isNone
      prepareUpdateScope current prior metadata (changed.map (H.document candidates)) deleted
    else prepareReplaceScope metadata (H.documents candidates)
  | _, _ => prepareReplaceScope metadata (H.documents candidates)

end Code

/-! ## Writers and refreshes -/

/-- How far a refresh has come with the scope. -/
inductive Refresher (γ : Type)
  | idle
  | listed (forceFull : Bool) (prior : Option ShardMetadata)
  | stated (forceFull : Bool) (prior : Option ShardMetadata) (state : Option ScopeState)
      (graphGeneration : ℕ)
  | collecting (plan : Plan) (rest : Load γ (List Candidate))
  | hashed (plan : Plan) (candidates : List Candidate)
      (priorDocuments : Option (Option (List (DocumentIdentity × String))))
  | prepared (plan : Plan) (candidates : List Candidate) (generation : Generation)
  | checked (plan : Plan) (candidates : List Candidate) (generation : Generation)
  | published (plan : Plan) (candidates : List Candidate)

structure System (γ ι : Type) where
  graph : γ
  state : Option ScopeState
  graphGeneration : ℕ
  current : Option Generation
  /-- Generations that are in place and were not selected. -/
  orphans : List Generation
  refreshers : ι → Refresher γ
  /-- A history: the graph while an epoch was the desired one. -/
  history : ℕ → γ

inductive PublishOutcome
  | selected
  /-- Maintenance has the lock. -/
  | busy
  /-- It failed when the generation was in place and not selected. -/
  | unselected
  deriving DecidableEq, Repr

inductive Action (γ ι : Type)
  /-- A writer changes the text of the scope, or only marks it. -/
  | write (graph : γ) (tombstone : Bool)
  | setGraphGeneration (generation : ℕ)
  | listMetadata (i : ι) (forceFull : Bool)
  | readStates (i : ι)
  | takeEpoch (i : ι)
  | read (i : ι)
  | readDocuments (i : ι)
  | prepare (i : ι)
  | check (i : ι)
  | publish (i : ι) (outcome : PublishOutcome)
  | acknowledge (i : ι)
  /-- A refresh fails and returns its error. -/
  | abandon (i : ι)
  | garbageCollect
  | crash

namespace System

variable {γ ι : Type} [DecidableEq ι] (H : Hashing) (identity : PublicationIdentity)
  (scopeUid : String) (collect : Load γ (List Candidate))

def desired (s : System γ ι) : ℕ := (s.state.map (·.desiredEpoch)).getD 0

def set (s : System γ ι) (i : ι) (r : Refresher γ) : System γ ι :=
  { s with refreshers := Function.update s.refreshers i r }

/-- A transaction that marks the scope, with the graph it leaves. -/
def mark (s : System γ ι) (graph : γ) (tombstone : Bool) : System γ ι :=
  let state := markRegexScopeDirty s.state tombstone
  { s with
    graph
    state := some state
    history := Function.update s.history state.desiredEpoch graph }

def step (s : System γ ι) : Action γ ι → Option (System γ ι)
  | .write graph tombstone => some (s.mark graph tombstone)
  | .setGraphGeneration generation => some { s with graphGeneration := generation }
  | .listMetadata i forceFull =>
    match s.refreshers i with
    | .idle => some (s.set i (.listed forceFull (s.current.map (·.metadata))))
    | _ => none
  | .readStates i =>
    match s.refreshers i with
    | .listed forceFull prior => some (s.set i (.stated forceFull prior s.state s.graphGeneration))
    | _ => none
  | .takeEpoch i =>
    match s.refreshers i with
    | .stated forceFull prior state graphGeneration =>
      match state.filter (fun st => !st.tombstone && !forceFull) with
      | some st =>
        some (s.set i (.collecting ⟨forceFull, prior, state, graphGeneration, st.desiredEpoch⟩ collect))
      | none =>
        let s := s.mark s.graph false
        some (s.set i (.collecting ⟨forceFull, prior, state, graphGeneration, s.desired⟩ collect))
    | _ => none
  | .read i =>
    match s.refreshers i with
    | .collecting plan (.read next) => some (s.set i (.collecting plan (next s.graph)))
    | _ => none
  | .readDocuments i =>
    match s.refreshers i with
    | .collecting plan (.done found) =>
      let candidates := sortByUid found
      if plan.unchanged H identity candidates then some (s.set i .idle)
      else some (s.set i (.hashed plan candidates (documentHashes s.current)))
    | _ => none
  | .prepare i =>
    match s.refreshers i with
    | .hashed plan candidates priorDocuments =>
      match plan.prepare H identity scopeUid candidates priorDocuments s.graphGeneration
          s.current with
      | some generation => some (s.set i (.prepared plan candidates generation))
      | none => some (s.set i .idle)
    | _ => none
  | .check i =>
    match s.refreshers i with
    | .prepared plan candidates generation =>
      if s.state.any (fun st => st.desiredEpoch == plan.epoch && !st.tombstone) &&
          s.current.map (·.metadata) == plan.prior then
        some (s.set i (.checked plan candidates generation))
      else some (s.set i .idle)
    | _ => none
  | .publish i outcome =>
    match s.refreshers i with
    | .checked plan candidates generation =>
      match outcome with
      | .selected => some { s.set i (.published plan candidates) with current := some generation }
      | .busy => some (s.set i .idle)
      | .unselected => some { s.set i .idle with orphans := generation :: s.orphans }
    | _ => none
  | .acknowledge i =>
    match s.refreshers i with
    | .published plan candidates =>
      match acknowledgeRegexScope s.state plan.epoch candidates.length
          (H.candidateDigest candidates) with
      | some (.acknowledged state) => some { s.set i .idle with state := some state }
      | _ => some (s.set i .idle)
    | _ => none
  | .abandon i => some (s.set i .idle)
  | .garbageCollect =>
    -- without a selector the generation that is left is selected
    match s.current, s.orphans with
    | none, [generation] => some { s with current := some generation, orphans := [] }
    | none, _ => some s
    | some _, _ => some { s with orphans := [] }
  | .crash => some { s with refreshers := fun _ => .idle }

end System

/-- A store whose scope has not been refreshed. -/
def System.init {γ ι : Type} (graph : γ) : System γ ι :=
  ⟨graph, none, 0, none, [], fun _ => .idle, fun _ => graph⟩

end RegexRefresh
end NestWeaver
