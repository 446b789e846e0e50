import NestWeaver.Store.Embedding.Journal
import NestWeaver.Store.Embedding.Layers

/-!
# The steps of the embedding journal

What each file operation can do: replaying a record makes its change (`Replays`), loading maps the rows
of a file (`loadBinaryV2_eq_ok`), and persisting has a few outcomes (`Persists`).
-/

set_option linter.all false

namespace NestWeaver
namespace Embedding

/-! ## Replaying one record -/

/-- A check that is passed. -/
lemma ok_of_check {ε α : Type*} {c : Prop} [Decidable c] {e : ε} {x : Except ε α} {a : α}
    (h : (if c then .error e else x) = .ok a) : ¬c ∧ x = .ok a := by
  by_cases hc : c
  · rw [if_pos hc] at h
    cases h
  · rw [if_neg hc] at h
    exact ⟨hc, h⟩

variable {F : Type*} {codec : JournalCodec F} {sha256 : EmbeddingPipelineV2 → String}
  {identity : PublicationIdentity} {pipeline : EmbeddingPipelineV2} {expected : String}
  {index index' : EmbeddingIndex F} {n n' : ℕ} {body : List UInt8}

/-- What a change that is replayed makes of the index. -/
structure Replays (pipeline : EmbeddingPipelineV2) (delta : Delta String (List F))
    (index index' : EmbeddingIndex F) : Prop where
  get : index'.get = delta.apply index.get
  layered : index.Layered → index'.Layered
  base : delta ≠ .clear → index'.base = index.base
  overlay : ∀ uid vector, index'.embeddings.lookup uid = some vector →
    index.embeddings.lookup uid = some vector ∨
      (delta = .upsert uid vector ∧ vector.length = pipeline.producedDimension)
  fingerprint : index'.recordedPipelineFingerprint = index.recordedPipelineFingerprint
  pipeline : index'.recordedPipeline = index.recordedPipeline
  envelope : index'.artifactEnvelope = index.artifactEnvelope

lemma replays_clear : Replays pipeline .clear index
    { index with embeddings := ∅, base := none, deletedBaseUids := ∅ } where
  get := by
    funext uid
    refine EmbeddingIndex.get_of_not_inBase (AList.notMem_empty _) ?_
    rintro ⟨base, hbase, -⟩
    cases hbase
  layered _ := EmbeddingIndex.layered_of_base_eq_none rfl rfl
  base h := absurd rfl h
  overlay uid vector h := by simp at h
  fingerprint := rfl
  pipeline := rfl
  envelope := rfl

lemma replays_upsert {uid : String} {vector : List F}
    (hsize : vector.length = pipeline.producedDimension) :
    Replays pipeline (.upsert uid vector) index
      { index with
        deletedBaseUids := index.deletedBaseUids.erase uid
        embeddings := index.embeddings.insert uid vector } where
  get := EmbeddingIndex.get_store rfl rfl rfl
  layered h := h.store rfl rfl rfl
  base _ := rfl
  overlay uid' vector' h := by
    by_cases huid : uid' = uid
    · subst huid
      rw [AList.lookup_insert] at h
      obtain rfl := Option.some.inj h
      exact .inr ⟨rfl, hsize⟩
    · rw [AList.lookup_insert_ne huid] at h
      exact .inl h
  fingerprint := rfl
  pipeline := rfl
  envelope := rfl

lemma replays_delete {uid : String} : Replays pipeline (.delete uid) index
    { index with
      embeddings := index.embeddings.erase uid
      deletedBaseUids :=
        if index.inBase uid then insert uid index.deletedBaseUids else index.deletedBaseUids } where
  get := EmbeddingIndex.get_hide rfl rfl fun _ => EmbeddingIndex.mem_deleted_insert
  layered h := h.hide rfl rfl fun _ => EmbeddingIndex.mem_deleted_insert
  base _ := rfl
  overlay uid' vector h := by
    refine .inl ?_
    by_cases huid : uid' = uid
    · subst huid
      rw [AList.lookup_erase] at h
      cases h
    · rwa [AList.lookup_erase_ne huid] at h
  fingerprint := rfl
  pipeline := rfl
  envelope := rfl

/-- What one record can do. -/
lemma replayRecord_eq_ok
    (h : replayRecord codec identity expected pipeline (index, n) body = .ok (index', n')) :
    ∃ record, codec.parseRecord body = some record ∧ n' = record.payload.sequence ∧
      Replays pipeline record.payload.delta index index' := by
  rw [replayRecord] at h
  dsimp only at h
  cases hparse : codec.parseRecord body with
  | none =>
    rw [hparse] at h
    cases h
  | some record =>
    rw [hparse] at h
    dsimp only at h
    refine ⟨record, rfl, ?_⟩
    obtain ⟨-, h⟩ := ok_of_check h
    obtain ⟨-, h⟩ := ok_of_check h
    obtain ⟨-, h⟩ := ok_of_check h
    cases hdelta : record.payload.delta with
    | clear =>
      rw [hdelta] at h
      obtain ⟨rfl, rfl⟩ := Prod.mk.inj (Except.ok.inj h)
      exact ⟨rfl, replays_clear⟩
    | upsert uid vector =>
      rw [hdelta] at h
      dsimp only at h
      obtain ⟨hsize, h⟩ := ok_of_check h
      obtain ⟨rfl, rfl⟩ := Prod.mk.inj (Except.ok.inj h)
      exact ⟨rfl, replays_upsert (not_not.mp hsize)⟩
    | delete uid =>
      rw [hdelta] at h
      obtain ⟨rfl, rfl⟩ := Prod.mk.inj (Except.ok.inj h)
      exact ⟨rfl, replays_delete⟩

/-- A sealed record with the next sequence number is replayed. -/
lemma replayRecord_seal (index : EmbeddingIndex F) {delta : Delta String (List F)}
    (hparse : codec.parseRecord body =
      some (EmbeddingJournalPayload.seal codec ⟨nextSequence n, identity, expected, delta⟩))
    (hsize : ∀ uid vector, delta = .upsert uid vector → vector.length = pipeline.producedDimension) :
    ∃ index', replayRecord codec identity expected pipeline (index, n) body =
      .ok (index', nextSequence n) ∧ Replays pipeline delta index index' := by
  rw [replayRecord]
  dsimp only
  rw [hparse]
  dsimp only [EmbeddingJournalPayload.seal]
  rw [if_neg (not_not_intro rfl), if_neg (not_not_intro rfl), if_neg (by simp)]
  cases delta with
  | clear => exact ⟨_, rfl, replays_clear⟩
  | upsert uid vector =>
    have hlength := hsize uid vector rfl
    dsimp only
    rw [if_neg (not_not_intro hlength)]
    exact ⟨_, rfl, replays_upsert hlength⟩
  | delete uid => exact ⟨_, rfl, replays_delete⟩

/-! ## Loading and replaying -/

/-- A property that every replayed record keeps. -/
lemma foldlM_replayRecord {P : EmbeddingIndex F → Prop} {bodies : List (List UInt8)}
    (h : bodies.foldlM (replayRecord codec identity expected pipeline) (index, n) = .ok (index', n'))
    (hstart : P index)
    (hstep : ∀ body ∈ bodies, ∀ record u u', codec.parseRecord body = some record →
      Replays pipeline record.payload.delta u u' → P u → P u') : P index' := by
  induction bodies generalizing index n with
  | nil =>
    obtain ⟨rfl, rfl⟩ := Prod.mk.inj (Except.ok.inj h)
    exact hstart
  | cons body bodies ih =>
    rw [List.foldlM_cons] at h
    match hfirst : replayRecord codec identity expected pipeline (index, n) body with
    | .error e =>
      rw [hfirst] at h
      cases h
    | .ok (index₁, n₁) =>
      rw [hfirst] at h
      obtain ⟨record, hparse, -, hreplays⟩ := replayRecord_eq_ok hfirst
      exact ih h (hstep body List.mem_cons_self record index index₁ hparse hreplays hstart)
        fun body' hbody' => hstep body' (List.mem_cons_of_mem _ hbody')

/-- The records that are found in a journal. -/
def journalBodies (bytes : List UInt8) : List (List UInt8) :=
  (Framing.scan maxRecordBytes some (bytes.drop embeddingJournalMagic.length)).1

lemma replayJournalV2_eq_ok {journal : Option (List UInt8)} {replayed : EmbeddingIndex F}
    (h : replayJournalV2 codec sha256 identity index journal pipeline = .ok replayed) :
    (journal = none ∧ replayed = index) ∨ ∃ bytes fingerprint index' n',
      journal = some bytes ∧ embeddingJournalMagic <+: bytes ∧
      pipeline.fingerprint sha256 = .ok fingerprint ∧
      (journalBodies bytes).foldlM (replayRecord codec identity fingerprint pipeline) (index, 0) =
        .ok (index', n') ∧
      replayed = { index' with
        journalSequence := n'
        journalValidBytes := some (bytes.length - (Framing.scan maxRecordBytes some
          (bytes.drop embeddingJournalMagic.length)).2.length)
        pendingDeltas := [] } := by
  unfold replayJournalV2 at h
  cases journal with
  | none => exact .inl ⟨rfl, (Except.ok.inj h).symm⟩
  | some bytes =>
    dsimp only at h
    obtain ⟨hmagic, h⟩ := ok_of_check h
    cases hfingerprint : pipeline.fingerprint sha256 with
    | error e =>
      rw [hfingerprint] at h
      cases h
    | ok fingerprint =>
      rw [hfingerprint] at h
      dsimp only at h
      match hfold : (journalBodies bytes).foldlM
          (replayRecord codec identity fingerprint pipeline) (index, 0) with
      | .error e =>
        rw [journalBodies] at hfold
        rw [hfold] at h
        cases h
      | .ok (index', n') =>
        have hfold' := hfold
        rw [journalBodies] at hfold'
        rw [hfold'] at h
        exact .inr ⟨bytes, fingerprint, index', n', rfl, not_not.mp hmagic, rfl, hfold,
          (Except.ok.inj h).symm⟩

lemma loadBinaryV2_eq_ok {file : BaseFile F} {loaded : EmbeddingIndex F}
    (h : loadBinaryV2 sha256 file = .ok loaded) : ∃ fingerprint hnodup,
      file.envelope.pipeline.fingerprint sha256 = .ok fingerprint ∧
      file.envelope.pipeline.producedDimension = file.envelope.dimension ∧
      loaded = file.mapped fingerprint hnodup := by
  rw [loadBinaryV2] at h
  obtain ⟨-, h⟩ := ok_of_check h
  cases hfingerprint : file.envelope.pipeline.fingerprint sha256 with
  | error e =>
    rw [hfingerprint] at h
    cases h
  | ok fingerprint =>
    rw [hfingerprint] at h
    dsimp only at h
    obtain ⟨hdimension, h⟩ := ok_of_check h
    -- the lengths and the counts of the envelope do not matter here
    obtain ⟨-, h⟩ := ok_of_check h
    obtain ⟨-, h⟩ := ok_of_check h
    obtain ⟨-, h⟩ := ok_of_check h
    obtain ⟨-, h⟩ := ok_of_check h
    obtain ⟨-, h⟩ := ok_of_check h
    obtain ⟨-, h⟩ := ok_of_check h
    obtain ⟨-, h⟩ := ok_of_check h
    by_cases hnodup : (file.rows.map Prod.fst).Nodup
    · rw [dif_pos hnodup] at h
      exact ⟨fingerprint, hnodup, rfl, not_not.mp hdimension, (Except.ok.inj h).symm⟩
    · rw [dif_neg hnodup] at h
      cases h

/-- What a base that is written holds. -/
structure Saves (sha256 : EmbeddingPipelineV2 → String) (index : EmbeddingIndex F)
    (identity : PublicationIdentity) (pipeline : EmbeddingPipelineV2) (file : BaseFile F) : Prop where
  intact : file.intact = true
  rows : file.rows = index.snapshotEntries
  envelope : file.envelope =
    { schemaVersion := 2
      identity := identity
      pipeline := pipeline
      count := index.snapshotEntries.length
      dimension := index.dimension.getD 0
      uidTableBytes := uidTableBytes index.snapshotEntries
      vectorBytes := index.snapshotEntries.length * index.dimension.getD 0 * 4 }

lemma saveBinaryV2_eq_ok {file : BaseFile F}
    (h : index.saveBinaryV2 sha256 identity pipeline = .ok file) :
    Saves sha256 index identity pipeline file := by
  rw [EmbeddingIndex.saveBinaryV2] at h
  cases hrequire : index.requireRecordedPipeline sha256 pipeline with
  | error e =>
    rw [hrequire] at h
    cases h
  | ok fingerprint =>
    rw [hrequire] at h
    dsimp only at h
    obtain ⟨-, h⟩ := ok_of_check h
    obtain ⟨-, h⟩ := ok_of_check h
    split at h
    · cases h
    · obtain rfl := Except.ok.inj h
      exact ⟨rfl, rfl, rfl⟩

lemma layered_mapped {file : BaseFile F} {fingerprint : String}
    {hnodup : (file.rows.map Prod.fst).Nodup} (hintact : file.intact = true) :
    (file.mapped fingerprint hnodup).Layered where
  inBase uid huid := by simp [BaseFile.mapped] at huid
  hidden uid huid := by simp [BaseFile.mapped] at huid
  intact base hbase := by
    obtain rfl := Option.some.inj hbase
    exact hintact

/-! ## What persisting does -/

/-- The pending changes are those that count. -/
def Store.dropSuperseded (s : Store F) : Store F :=
  { s with index :=
    { s.index with pendingDeltas := (Delta.unsuperseded s.index.pendingDeltas).2 } }

def Store.trusted (s : Store F) : Prop := s.disk.base.isSome ∧ s.index.artifactEnvelope.isSome

instance (s : Store F) : Decidable s.trusted := inferInstanceAs (Decidable (_ ∧ _))

/-- The journal that an append makes, and the sequence number of its last record. -/
def Store.encodes (codec : JournalCodec F) (sha256 : EmbeddingPipelineV2 → String)
    (identity : PublicationIdentity) (s : Store F) (journal : List UInt8) (sequence : ℕ) : Prop :=
  ∃ pipeline fingerprint, s.index.recordedPipeline = some pipeline ∧
    s.index.requireRecordedPipeline sha256 pipeline = .ok fingerprint ∧
    embeddingJournalMagic <+: s.disk.journal.getD embeddingJournalMagic ∧
    (Delta.unsuperseded s.index.pendingDeltas).2.foldlM
      (encodeDelta codec identity s.index.get fingerprint)
      (s.index.journalValidBytes.elim (s.disk.journal.getD embeddingJournalMagic)
        (s.disk.journal.getD embeddingJournalMagic).take, s.index.journalSequence) =
      .ok (journal, sequence)

/-- The base that a checkpoint writes. -/
def Store.saves (sha256 : EmbeddingPipelineV2 → String) (identity : PublicationIdentity)
    (s : Store F) (file : BaseFile F) : Prop :=
  ¬(s.index.isEmpty = true ∧ s.index.pendingDeltas = []) ∧ ¬s.trusted ∧ ∃ pipeline, s.index.recordedPipeline = some pipeline ∧
    s.index.saveBinaryV2 sha256 identity pipeline = .ok file

/-- What may become of the store, and of the step. -/
inductive Persists (codec : JournalCodec F) (sha256 : EmbeddingPipelineV2 → String)
    (identity : PublicationIdentity) (fault : Option Fault) (adoptFirst : Bool) (s : Store F) :
    Store F → Except String Unit → Prop
  | idle (hempty : s.index.isEmpty = true) (hpending : s.index.pendingDeltas = []) :
      Persists codec sha256 identity fault adoptFirst s s (.ok ())
  | refused (e : String) : Persists codec sha256 identity fault adoptFirst s s (.error e)
  | current (htrusted : s.trusted) (hpending : s.index.pendingDeltas = []) :
      Persists codec sha256 identity fault adoptFirst s s (.ok ())
  | kept (e : String) (htrusted : s.trusted) :
      Persists codec sha256 identity fault adoptFirst s s.dropSuperseded (.error e)
  | synced (e : String) (journal : List UInt8) (sequence : ℕ) (hfault : fault = some .syncJournal)
      (htrusted : s.trusted) (hencodes : s.encodes codec sha256 identity journal sequence) :
      Persists codec sha256 identity fault adoptFirst s
        { s.dropSuperseded with disk := { s.disk with journal := some journal } } (.error e)
  | appended (journal : List UInt8) (sequence : ℕ) (htrusted : s.trusted)
      (hencodes : s.encodes codec sha256 identity journal sequence) :
      Persists codec sha256 identity fault adoptFirst s
        { index :=
            { s.index with
              pendingDeltas := []
              journalSequence := sequence
              journalValidBytes := none }
          disk := { s.disk with journal := some journal } } (.ok ())
  | saved (file : BaseFile F) (e : String) (hsaves : s.saves sha256 identity file) :
      Persists codec sha256 identity fault adoptFirst s
        { s with disk := { s.disk with base := some file } } (.error e)
  | retired (file : BaseFile F) (e : String) (hsaves : s.saves sha256 identity file) :
      Persists codec sha256 identity fault adoptFirst s
        { s with disk := ⟨some file, none⟩ } (.error e)
  | adopted (file : BaseFile F) (loaded : EmbeddingIndex F) (e : String)
      (hsaves : s.saves sha256 identity file) (hload : loadBinaryV2 sha256 file = .ok loaded)
      (hfirst : adoptFirst = true) (hfault : fault = some .removeJournal) :
      Persists codec sha256 identity fault adoptFirst s
        ⟨loaded, { s.disk with base := some file }⟩ (.error e)
  | checkpointed (file : BaseFile F) (loaded : EmbeddingIndex F) (r : Except String Unit)
      (hsaves : s.saves sha256 identity file) (hload : loadBinaryV2 sha256 file = .ok loaded) :
      Persists codec sha256 identity fault adoptFirst s ⟨loaded, some file, none⟩ r

variable {fault : Option Fault} {adoptFirst : Bool} {s : Store F}

lemma persists_append (htrusted : s.trusted) (hpipeline : s.index.recordedPipeline = some pipeline) :
    Persists codec sha256 identity fault adoptFirst s
      (appendJournalV2 codec sha256 identity fault s pipeline).1
      ((appendJournalV2 codec sha256 identity fault s pipeline).2.map fun _ => ()) := by
  rw [appendJournalV2]
  by_cases hpending : s.index.pendingDeltas = []
  · rw [if_pos hpending]
    exact .current htrusted hpending
  rw [if_neg hpending]
  cases hrequire : s.index.requireRecordedPipeline sha256 pipeline with
  | error e => exact .refused e
  | ok fingerprint =>
    dsimp only
    by_cases hread : fault = some .readJournal
    · rw [if_pos hread]
      exact .refused _
    rw [if_neg hread]
    by_cases hmagic : embeddingJournalMagic <+: s.disk.journal.getD embeddingJournalMagic
    · rw [if_neg (not_not_intro hmagic)]
      split
      · exact .kept _ htrusted
      · rename_i journal sequence hencode
        have hencodes : s.encodes codec sha256 identity journal sequence :=
          ⟨pipeline, fingerprint, hpipeline, hrequire, hmagic, hencode⟩
        by_cases hwrite : fault = some .writeJournal
        · rw [if_pos hwrite]
          exact .kept _ htrusted
        rw [if_neg hwrite]
        by_cases hsync : fault = some .syncJournal
        · rw [if_pos hsync]
          exact .synced _ journal sequence hsync htrusted hencodes
        rw [if_neg hsync]
        exact .appended journal sequence htrusted hencodes
    · rw [if_pos hmagic]
      exact .refused _

lemma adoptBinaryV2_cases (sha256 : EmbeddingPipelineV2 → String) (fault : Option Fault)
    (s : Store F) {file : BaseFile F} (hfile : s.disk.base = some file) :
    (∃ e, adoptBinaryV2 sha256 fault s = (s, .error e)) ∨
      ∃ loaded, loadBinaryV2 sha256 file = .ok loaded ∧
        adoptBinaryV2 sha256 fault s = ({ s with index := loaded }, .ok ()) := by
  by_cases hfault : fault = some .openBase
  · rw [hfault, adoptBinaryV2]
    exact .inl ⟨_, rfl⟩
  cases hload : loadBinaryV2 sha256 file with
  | error e =>
    refine .inl ⟨e, ?_⟩
    unfold adoptBinaryV2
    rw [hfile]
    split
    · exact absurd rfl hfault
    · rename_i hnone
      cases hnone
    · rename_i hsome
      obtain rfl := Option.some.inj hsome
      rw [hload]
  | ok loaded =>
    obtain ⟨fingerprint, hnodup, -, -, rfl⟩ := loadBinaryV2_eq_ok hload
    refine .inr ⟨_, rfl, ?_⟩
    unfold adoptBinaryV2
    rw [hfile]
    split
    · exact absurd rfl hfault
    · rename_i hnone
      cases hnone
    · rename_i hsome
      obtain rfl := Option.some.inj hsome
      rw [hload]
      rfl

lemma retireJournal_cases (fault : Option Fault) (s : Store F) :
    (fault = some .removeJournal ∧ ∃ e, retireJournal fault s = (s, .error e)) ∨
      ∃ r, retireJournal fault s = ({ s with disk := { s.disk with journal := none } }, r) := by
  rw [retireJournal]
  by_cases hremove : fault = some .removeJournal
  · rw [if_pos hremove]
    exact .inl ⟨hremove, _, rfl⟩
  rw [if_neg hremove]
  dsimp only
  by_cases hsync : fault = some .syncRemoval
  · rw [if_pos hsync]
    exact .inr ⟨_, rfl⟩
  · rw [if_neg hsync]
    exact .inr ⟨_, rfl⟩

lemma persists_checkpoint {file : BaseFile F} (hsaves : s.saves sha256 identity file) :
    let saved : Store F := { s with disk := { s.disk with base := some file } }
    let result := if adoptFirst then
        andThen (adoptBinaryV2 sha256 fault saved) (retireJournal fault)
      else andThen (retireJournal fault saved) (adoptBinaryV2 sha256 fault)
    Persists codec sha256 identity fault adoptFirst s result.1 result.2 := by
  intro saved
  dsimp only
  by_cases hfirst : adoptFirst = true
  · rw [if_pos hfirst]
    obtain ⟨e, hadopt⟩ | ⟨loaded, hload, hadopt⟩ := adoptBinaryV2_cases sha256 fault
      saved rfl
    · rw [hadopt]
      exact .saved file e hsaves
    · rw [hadopt, andThen]
      obtain ⟨hfault, e, hretire⟩ | ⟨r, hretire⟩ := retireJournal_cases fault
        { saved with index := loaded }
      · rw [hretire]
        exact .adopted file loaded e hsaves hload hfirst hfault
      · rw [hretire]
        exact .checkpointed file loaded r hsaves hload
  · rw [if_neg hfirst]
    obtain ⟨-, e, hretire⟩ | ⟨r, hretire⟩ := retireJournal_cases fault saved
    · rw [hretire]
      exact .saved file e hsaves
    · rw [hretire]
      cases r with
      | error e => exact .retired file e hsaves
      | ok u =>
        rw [andThen]
        obtain ⟨e, hadopt⟩ | ⟨loaded, hload, hadopt⟩ := adoptBinaryV2_cases sha256 fault
          ⟨s.index, some file, none⟩ rfl
        · rw [hadopt]
          exact .retired file e hsaves
        · rw [hadopt]
          exact .checkpointed file loaded _ hsaves hload

/-- **What persisting does.** -/
lemma persists (fault : Option Fault) (adoptFirst : Bool) (s : Store F) :
    Persists codec sha256 identity fault adoptFirst s
      (s.persist codec sha256 identity fault adoptFirst).1
      (s.persist codec sha256 identity fault adoptFirst).2 := by
  rw [Store.persist]
  by_cases hidle : s.index.isEmpty = true ∧ s.index.pendingDeltas = []
  · rw [if_pos hidle]
    exact .idle hidle.1 hidle.2
  rw [if_neg hidle]
  cases hpipeline : s.index.recordedPipeline with
  | none => exact .refused _
  | some pipeline =>
    dsimp only
    by_cases htrusted : s.disk.base.isSome = true ∧ s.index.artifactEnvelope.isSome = true
    · rw [if_pos htrusted]
      exact persists_append htrusted hpipeline
    · rw [if_neg htrusted, saveBase]
      cases hsave : s.index.saveBinaryV2 sha256 identity pipeline with
      | error e =>
        cases adoptFirst <;> exact .refused e
      | ok file =>
        have hsaves : s.saves sha256 identity file := ⟨hidle, htrusted, pipeline, hpipeline, hsave⟩
        dsimp only
        by_cases hwrite : fault = some .writeBase
        · rw [if_pos hwrite]
          cases adoptFirst <;> exact .refused _
        rw [if_neg hwrite]
        by_cases hsync : fault = some .syncBase
        · rw [if_pos hsync]
          cases adoptFirst <;> exact .saved file _ hsaves
        · rw [if_neg hsync]
          exact persists_checkpoint hsaves

lemma persists_of_eq {s' : Store F} {r : Except String Unit}
    (h : s.persist codec sha256 identity fault adoptFirst = (s', r)) :
    Persists codec sha256 identity fault adoptFirst s s' r := by
  have hpersists : Persists codec sha256 identity fault adoptFirst s _ _ := persists fault adoptFirst s
  rwa [h] at hpersists

end Embedding
end NestWeaver
