import NestWeaver.Store.Embedding.JournalSteps

/-!
# The invariant of the embedding journal

While the base is trusted, replaying the journal over it and making the pending changes gives the live
vectors (`Trusted`).  Opening establishes the invariant (`inv_opened`), and the operations on the index
keep it, unless a vector of another pipeline is taken over a trusted base
(`EmbeddingIndex.AdoptsOver`).
-/

set_option linter.all false

namespace NestWeaver
namespace Embedding

variable {F : Type*} {codec : JournalCodec F} {sha256 : EmbeddingPipelineV2 → String}
  {identity : PublicationIdentity} {s t : Store F}

/-! ## Tombstones -/

/-- The index is layered, and the base on disk is as it was written. -/
structure Store.Sound (s : Store F) : Prop where
  layered : s.index.Layered
  intact : ∀ file, s.disk.base = some file → file.intact = true

lemma layered_reload {disk : Disk F} (hintact : ∀ file, disk.base = some file → file.intact = true) :
    (reload codec sha256 identity disk).Layered := by
  have hnew : (EmbeddingIndex.new : EmbeddingIndex F).Layered :=
    EmbeddingIndex.layered_of_base_eq_none rfl rfl
  rw [reload]
  cases hbase : disk.base with
  | none => exact hnew
  | some file =>
    dsimp only
    cases hload : loadBinaryV2 sha256 file with
    | error e => exact hnew
    | ok loaded =>
      obtain ⟨fingerprint, hnodup, -, -, rfl⟩ := loadBinaryV2_eq_ok hload
      have hlayered : (file.mapped fingerprint hnodup).Layered :=
        layered_mapped (hintact file hbase)
      dsimp only
      cases hreplay : replayJournalV2 codec sha256 identity (file.mapped fingerprint hnodup)
          disk.journal file.envelope.pipeline with
      | error e => exact hnew
      | ok replayed =>
        obtain ⟨-, rfl⟩ | ⟨bytes, fp, index', n', -, -, -, hfold, rfl⟩ := replayJournalV2_eq_ok hreplay
        · exact hlayered
        · have hreplayed : index'.Layered := foldlM_replayRecord hfold hlayered
            fun _ _ _ _ _ _ hreplays h => hreplays.layered h
          exact hreplayed.congr rfl rfl rfl

lemma Store.Sound.apply (h : s.Sound) (op : StoreOp F) :
    (s.apply codec sha256 identity op).Sound := by
  cases op with
  | index op => exact ⟨h.layered.apply op, h.intact⟩
  | crash => exact ⟨layered_reload h.intact, h.intact⟩
  | persist adoptFirst fault =>
    have hsaved : ∀ file, s.saves sha256 identity file → file.intact = true := by
      rintro file ⟨-, -, pipeline, -, hsave⟩
      exact (saveBinaryV2_eq_ok hsave).intact
    have hloaded : ∀ file loaded, s.saves sha256 identity file →
        loadBinaryV2 sha256 file = .ok loaded → loaded.Layered := by
      intro file loaded hsaves hload
      obtain ⟨fingerprint, hnodup, -, -, rfl⟩ := loadBinaryV2_eq_ok hload
      exact layered_mapped (hsaved file hsaves)
    have hnew : ∀ file, s.saves sha256 identity file → ∀ file', some file = some file' →
        file'.intact = true := by
      intro file hsaves file' hfile'
      obtain rfl := Option.some.inj hfile'
      exact hsaved file hsaves
    obtain ⟨s', r, hresult⟩ : ∃ s' r, s.persist codec sha256 identity fault adoptFirst = (s', r) :=
      ⟨_, _, rfl⟩
    rw [Store.apply, hresult]
    cases persists_of_eq hresult with
    | idle | refused | current => exact h
    | kept => exact ⟨h.layered.congr rfl rfl rfl, h.intact⟩
    | synced => exact ⟨h.layered.congr rfl rfl rfl, h.intact⟩
    | appended => exact ⟨h.layered.congr rfl rfl rfl, h.intact⟩
    | saved file e hsaves => exact ⟨h.layered, hnew file hsaves⟩
    | retired file e hsaves => exact ⟨h.layered, hnew file hsaves⟩
    | adopted file loaded e hsaves hload => exact ⟨hloaded file loaded hsaves hload, hnew file hsaves⟩
    | checkpointed file loaded r hsaves hload =>
      exact ⟨hloaded file loaded hsaves hload, hnew file hsaves⟩

/-! ## The invariant -/

/-- A vector that a caller may add. -/
structure Good (finite : F → Prop) (uid : String) (vector : List F) : Prop where
  nonempty : uid ≠ ""
  finite : ∀ x ∈ vector, finite x

def GoodDelta (finite : F → Prop) : Delta String (List F) → Prop
  | .clear => False
  | .upsert uid vector => Good finite uid vector
  | .delete _ => True

/-- A journal of whole records, none of which clears the index. -/
structure Journaled (codec : JournalCodec F) (finite : F → Prop) (bytes : List UInt8)
    (bodies : List (List UInt8)) : Prop where
  bytes : bytes = embeddingJournalMagic ++ bodies.flatMap Framing.frame
  fits : ∀ body ∈ bodies, body.length ≤ maxRecordBytes
  parses : ∀ body ∈ bodies, ∃ record, codec.parseRecord body = some record ∧
    GoodDelta finite record.payload.delta

/-- The fingerprint is that of the pipeline. -/
def Recorded (sha256 : EmbeddingPipelineV2 → String) (index : EmbeddingIndex F) : Prop :=
  (index.recordedPipelineFingerprint = none ∧ index.recordedPipeline = none) ∨
    ∃ pipeline fingerprint, index.recordedPipelineFingerprint = some fingerprint ∧
      index.recordedPipeline = some pipeline ∧ pipeline.fingerprint sha256 = .ok fingerprint

/-- The journal that the next append continues. -/
def Store.validJournal (s : Store F) : Option (List UInt8) :=
  s.index.journalValidBytes.elim s.disk.journal fun n => s.disk.journal.map (·.take n)

lemma Store.validJournal_of_whole (h : ∀ n, s.index.journalValidBytes = some n →
    ∃ bytes, s.disk.journal = some bytes ∧ n = bytes.length) : s.validJournal = s.disk.journal := by
  rw [Store.validJournal]
  cases hvalid : s.index.journalValidBytes with
  | none => rfl
  | some n =>
    obtain ⟨bytes, hbytes, rfl⟩ := h n hvalid
    rw [hbytes, Option.elim_some, Option.map_some, List.take_length]

/-- The base on disk carries the index: the valid journal over it and the pending changes lead to what
is live. -/
structure Trusted (codec : JournalCodec F) (sha256 : EmbeddingPipelineV2 → String)
    (identity : PublicationIdentity) (finite : F → Prop) (s : Store F) (file : BaseFile F)
    (loaded replayed : EmbeddingIndex F) : Prop where
  envelope : s.index.artifactEnvelope.isSome = true
  onDisk : s.disk.base = some file
  load : loadBinaryV2 sha256 file = .ok loaded
  journaled : ∀ bytes, s.validJournal = some bytes → ∃ bodies, Journaled codec finite bytes bodies
  replay : replayJournalV2 codec sha256 identity loaded s.validJournal file.envelope.pipeline =
    .ok replayed
  base : ∃ base, s.index.base = some base ∧
    base.dimension = file.envelope.pipeline.producedDimension
  fingerprint : s.index.recordedPipelineFingerprint = loaded.recordedPipelineFingerprint
  sequence : s.index.journalSequence = replayed.journalSequence
  valid : s.index.pendingDeltas = [] → s.validJournal = s.disk.journal
  within : ∀ n, s.index.journalValidBytes = some n →
    ∃ bytes, s.disk.journal = some bytes ∧ n ≤ bytes.length
  tracks : Delta.Tracks replayed.get s.index.pendingDeltas s.index.get
  upserts : ∀ uid, Delta.outcome uid s.index.pendingDeltas = some (some ()) →
    uid ∈ s.index.embeddings

/-- No base carries the index.  Unless something is pending, nothing is live, here or on disk. -/
structure Untrusted (codec : JournalCodec F) (sha256 : EmbeddingPipelineV2 → String)
    (identity : PublicationIdentity) (s : Store F) : Prop where
  envelope : s.index.artifactEnvelope = none
  base : s.index.base = none
  idle : s.index.pendingDeltas = [] → s.index.isEmpty = true ∧
    ∀ uid, (reload codec sha256 identity s.disk).get uid = none

structure Store.Inv (codec : JournalCodec F) (sha256 : EmbeddingPipelineV2 → String)
    (identity : PublicationIdentity) (finite : F → Prop) (s : Store F) : Prop where
  sound : s.Sound
  journal : ∀ bytes, s.disk.journal = some bytes → ∃ bodies, Journaled codec finite bytes bodies
  recorded : Recorded sha256 s.index
  overlay : ∀ uid vector, s.index.embeddings.lookup uid = some vector → Good finite uid vector ∧
    ∃ pipeline, s.index.recordedPipeline = some pipeline ∧
      vector.length = pipeline.producedDimension
  foundation : Untrusted codec sha256 identity s ∨
    ∃ file loaded replayed, Trusted codec sha256 identity finite s file loaded replayed

variable {finite : F → Prop}

/-! ## Opening -/

lemma Journaled.scan {bytes : List UInt8} {bodies : List (List UInt8)}
    (h : Journaled codec finite bytes bodies) :
    Framing.scan maxRecordBytes some (bytes.drop embeddingJournalMagic.length) = (bodies, []) := by
  have hreads : List.Forall₂ (Framing.Reads maxRecordBytes some) bodies bodies := by
    refine List.forall₂_same.mpr fun body hbody => ⟨h.fits body hbody, ?_, rfl⟩
    have hfits := h.fits body hbody
    rw [maxRecordBytes] at hfits
    omega
  have hscan := Framing.scan_frames hreads []
  rw [List.append_nil] at hscan
  rw [h.bytes, List.drop_left, hscan]
  exact congrArg (·, []) (List.append_nil bodies)

lemma Journaled.bodies {bytes : List UInt8} {bodies : List (List UInt8)}
    (h : Journaled codec finite bytes bodies) : journalBodies bytes = bodies := by
  rw [journalBodies, h.scan]

/-- The overlay holds vectors that a caller may add, of the dimension of the pipeline; and the records
have changed nothing but vectors. -/
structure ReplayedOver (finite : F → Prop) (pipeline : EmbeddingPipelineV2)
    (loaded index : EmbeddingIndex F) : Prop where
  overlay : ∀ uid vector, index.embeddings.lookup uid = some vector →
    Good finite uid vector ∧ vector.length = pipeline.producedDimension
  base : index.base = loaded.base
  fingerprint : index.recordedPipelineFingerprint = loaded.recordedPipelineFingerprint
  pipeline : index.recordedPipeline = loaded.recordedPipeline
  envelope : index.artifactEnvelope = loaded.artifactEnvelope

lemma ReplayedOver.step {pipeline : EmbeddingPipelineV2} {delta : Delta String (List F)}
    {loaded index index' : EmbeddingIndex F} (h : ReplayedOver finite pipeline loaded index)
    (hgood : GoodDelta finite delta) (hreplays : Replays pipeline delta index index') :
    ReplayedOver finite pipeline loaded index' where
  overlay uid vector hlookup := by
    obtain hbefore | ⟨rfl, hsize⟩ := hreplays.overlay uid vector hlookup
    · exact h.overlay uid vector hbefore
    · exact ⟨hgood, hsize⟩
  base := by
    refine (hreplays.base ?_).trans h.base
    rintro rfl
    exact hgood
  fingerprint := hreplays.fingerprint.trans h.fingerprint
  pipeline := hreplays.pipeline.trans h.pipeline
  envelope := hreplays.envelope.trans h.envelope

/-- What a journal of whole records makes of the rows of a file. -/
lemma replayedOver_of_replayJournalV2 {journal : Option (List UInt8)} {file : BaseFile F}
    {fingerprint : String} {hnodup : (file.rows.map Prod.fst).Nodup} {replayed : EmbeddingIndex F}
    (hjournal : ∀ bytes, journal = some bytes → ∃ bodies, Journaled codec finite bytes bodies)
    (hreplay : replayJournalV2 codec sha256 identity (file.mapped fingerprint hnodup) journal
      file.envelope.pipeline = .ok replayed) :
    ReplayedOver finite file.envelope.pipeline (file.mapped fingerprint hnodup) replayed ∧
      replayed.pendingDeltas = [] ∧ ∀ n, replayed.journalValidBytes = some n →
        ∃ bytes, journal = some bytes ∧ n = bytes.length := by
  have hstart : ReplayedOver finite file.envelope.pipeline
      (file.mapped fingerprint hnodup) (file.mapped fingerprint hnodup) :=
    ⟨fun uid vector h => by simp [BaseFile.mapped] at h, rfl, rfl, rfl, rfl⟩
  obtain ⟨-, rfl⟩ | ⟨bytes, fp, index', n', hbytes, -, -, hfold, rfl⟩ := replayJournalV2_eq_ok hreplay
  · exact ⟨hstart, rfl, fun n hn => by cases hn⟩
  · obtain ⟨bodies, hjournaled⟩ := hjournal bytes hbytes
    rw [hjournaled.bodies] at hfold
    have hend := foldlM_replayRecord hfold hstart
      fun body hbody record u u' hparse hreplays h => by
        obtain ⟨record', hparse', hgood⟩ := hjournaled.parses body hbody
        obtain rfl := Option.some.inj (hparse.symm.trans hparse')
        exact h.step hgood hreplays
    refine ⟨⟨hend.overlay, hend.base, hend.fingerprint, hend.pipeline, hend.envelope⟩, rfl,
      fun n hn => ⟨bytes, hbytes, ?_⟩⟩
    rw [hjournaled.scan] at hn
    exact (Option.some.inj hn).symm

/-- **Opening.**  What is opened satisfies the invariant. -/
lemma inv_opened {disk : Disk F} (hintact : ∀ file, disk.base = some file → file.intact = true)
    (hjournal : ∀ bytes, disk.journal = some bytes → ∃ bodies, Journaled codec finite bytes bodies) :
    (Store.opened codec sha256 identity disk).Inv codec sha256 identity finite := by
  have hsound : (Store.opened codec sha256 identity disk).Sound :=
    ⟨layered_reload hintact, hintact⟩
  have hnew : reload codec sha256 identity disk = .new →
      (Store.opened codec sha256 identity disk).Inv codec sha256 identity finite := by
    intro hreload
    refine ⟨hsound, hjournal, ?_, ?_, .inl ⟨?_, ?_, fun _ => ⟨?_, fun uid => ?_⟩⟩⟩
    · exact .inl (by simp [Store.opened, hreload, EmbeddingIndex.new])
    · intro uid vector hlookup
      simp [Store.opened, hreload, EmbeddingIndex.new] at hlookup
    · rw [Store.opened, hreload]
      rfl
    · rw [Store.opened, hreload]
      rfl
    · rw [Store.opened, hreload]
      rfl
    · rw [Store.opened, hreload]
      rfl
  cases hbase : disk.base with
  | none => exact hnew (by rw [reload, hbase])
  | some file =>
    cases hload : loadBinaryV2 sha256 file with
    | error e => exact hnew (by simp [reload, hbase, hload])
    | ok loaded =>
      cases hreplay : replayJournalV2 codec sha256 identity loaded disk.journal
          file.envelope.pipeline with
      | error e => exact hnew (by simp [reload, hbase, hload, hreplay])
      | ok replayed =>
        have hreload : reload codec sha256 identity disk = replayed := by
          simp [reload, hbase, hload, hreplay]
        have hloaded := hload
        obtain ⟨fingerprint, hnodup, hfingerprint, hdimension, rfl⟩ := loadBinaryV2_eq_ok hload
        obtain ⟨hover, hpending, hvalid⟩ := replayedOver_of_replayJournalV2 hjournal hreplay
        refine ⟨hsound, hjournal, ?_, ?_, .inr ⟨file, file.mapped fingerprint hnodup, replayed, ?_⟩⟩
        · rw [Store.opened, hreload]
          exact .inr ⟨file.envelope.pipeline, fingerprint, hover.fingerprint, hover.pipeline,
            hfingerprint⟩
        · rw [Store.opened, hreload]
          intro uid vector hlookup
          obtain ⟨hgood, hsize⟩ := hover.overlay uid vector hlookup
          exact ⟨hgood, file.envelope.pipeline, hover.pipeline, hsize⟩
        · rw [Store.opened, hreload]
          have hwhole : Store.validJournal ⟨replayed, disk⟩ = disk.journal :=
            Store.validJournal_of_whole hvalid
          refine ⟨?_, hbase, hloaded, ?_, ?_, ?_, hover.fingerprint, rfl, fun _ => hwhole, ?_, ?_,
            ?_⟩
          · rw [hover.envelope]
            rfl
          · rw [hwhole]
            exact hjournal
          · rw [hwhole]
            exact hreplay
          · exact ⟨_, hover.base, hdimension.symm⟩
          · intro n hn
            obtain ⟨bytes, hbytes, rfl⟩ := hvalid n hn
            exact ⟨bytes, hbytes, le_rfl⟩
          · rw [hpending]
            exact .nil _
          · rw [hpending]
            exact fun uid houtcome => by cases houtcome

/-! ## Operations on the index -/

lemma Trusted.index {file : BaseFile F} {loaded replayed index' : EmbeddingIndex F}
    (h : Trusted codec sha256 identity finite s file loaded replayed)
    (henvelope : index'.artifactEnvelope = s.index.artifactEnvelope)
    (hbase : index'.base = s.index.base)
    (hfingerprint : index'.recordedPipelineFingerprint = s.index.recordedPipelineFingerprint)
    (hsequence : index'.journalSequence = s.index.journalSequence)
    (hvalid : index'.journalValidBytes = s.index.journalValidBytes)
    (hpending : index'.pendingDeltas = [] → s.index.pendingDeltas = [])
    (htracks : Delta.Tracks replayed.get index'.pendingDeltas index'.get)
    (hupserts : ∀ uid, Delta.outcome uid index'.pendingDeltas = some (some ()) →
      uid ∈ index'.embeddings) :
    Trusted codec sha256 identity finite ⟨index', s.disk⟩ file loaded replayed where
  envelope := henvelope ▸ h.envelope
  onDisk := h.onDisk
  load := h.load
  journaled := by
    rw [Store.validJournal, hvalid]
    exact h.journaled
  replay := by
    rw [Store.validJournal, hvalid]
    exact h.replay
  base := hbase ▸ h.base
  fingerprint := hfingerprint.trans h.fingerprint
  sequence := hsequence.trans h.sequence
  valid hnil := by
    rw [Store.validJournal, hvalid]
    exact h.valid (hpending hnil)
  within := hvalid ▸ h.within
  tracks := htracks
  upserts := hupserts

/-- Removing a vector keeps the invariant, if it is journaled or there was none. -/
lemma Store.Inv.hide (h : s.Inv codec sha256 identity finite) {uid : String}
    {deletedBaseUids : Finset String} {pendingDeltas : List EmbeddingDelta}
    (hdeleted : ∀ uid', uid' ∈ deletedBaseUids ↔
      uid' ∈ s.index.deletedBaseUids ∨ (uid' = uid ∧ s.index.inBase uid))
    (hpending : pendingDeltas = s.index.pendingDeltas ++ [Delta.delete uid] ∨
      pendingDeltas = s.index.pendingDeltas ∧ s.index.get uid = none) :
    Store.Inv codec sha256 identity finite
      ⟨{ s.index with
        embeddings := s.index.embeddings.erase uid
        deletedBaseUids := deletedBaseUids
        pendingDeltas := pendingDeltas }, s.disk⟩ := by
  refine ⟨⟨h.sound.layered.hide rfl rfl hdeleted, h.sound.intact⟩, h.journal, h.recorded, ?_, ?_⟩
  · intro uid' vector hlookup
    by_cases huid : uid' = uid
    · rw [huid, AList.lookup_erase] at hlookup
      cases hlookup
    · rw [AList.lookup_erase_ne huid] at hlookup
      exact h.overlay uid' vector hlookup
  · obtain huntrusted | ⟨file, loaded, replayed, htrusted⟩ := h.foundation
    · refine .inl ⟨huntrusted.envelope, huntrusted.base, fun hnil => ?_⟩
      obtain rfl | ⟨rfl, -⟩ := hpending
      · exact absurd hnil (List.append_ne_nil_of_right_ne_nil _ (List.cons_ne_nil _ _))
      · obtain ⟨hempty, hdisk⟩ := huntrusted.idle hnil
        refine ⟨EmbeddingIndex.isEmpty_iff.mpr ⟨?_, fun base hbase => ?_⟩, hdisk⟩
        · have hentries := (EmbeddingIndex.isEmpty_iff.mp hempty).1
          have herase : (s.index.embeddings.erase uid).entries =
              s.index.embeddings.entries.kerase uid := rfl
          rw [herase, hentries, List.kerase_nil]
        · cases huntrusted.base.symm.trans hbase
    · refine .inr ⟨file, loaded, replayed, htrusted.index rfl rfl rfl rfl rfl ?_ ?_ ?_⟩
      · intro hnil
        obtain rfl | ⟨rfl, -⟩ := hpending
        · exact absurd hnil (List.append_ne_nil_of_right_ne_nil _ (List.cons_ne_nil _ _))
        · exact hnil
      · have hget : EmbeddingIndex.get
            { s.index with
              embeddings := s.index.embeddings.erase uid
              deletedBaseUids := deletedBaseUids
              pendingDeltas := pendingDeltas } = Function.update s.index.get uid none :=
          EmbeddingIndex.get_hide rfl rfl hdeleted
        rw [hget]
        obtain rfl | ⟨rfl, hnone⟩ := hpending
        · exact htrusted.tracks.delete (Function.update_self ..)
            fun uid' huid => Function.update_of_ne huid ..
        · have hsame : Function.update s.index.get uid none = s.index.get := by
            rw [← hnone, Function.update_eq_self]
          rw [hsame]
          exact htrusted.tracks
      · intro uid' houtcome
        have hbefore : uid' ≠ uid ∧ Delta.outcome uid' s.index.pendingDeltas = some (some ()) := by
          obtain rfl | ⟨rfl, hnone⟩ := hpending
          · rw [Delta.outcome_concat, Delta.effect] at houtcome
            by_cases huid : uid = uid'
            · simp [huid] at houtcome
            · rw [if_neg huid, Option.none_or] at houtcome
              exact ⟨Ne.symm huid, houtcome⟩
          · refine ⟨?_, houtcome⟩
            rintro rfl
            have hlive := htrusted.tracks.present uid' houtcome
            rw [hnone] at hlive
            cases hlive
        exact AList.mem_erase.mpr ⟨hbefore.1, htrusted.upserts uid' hbefore.2⟩

lemma Store.Inv.tombstoneUid (h : s.Inv codec sha256 identity finite) (uid : String) :
    Store.Inv codec sha256 identity finite ⟨s.index.tombstoneUid uid, s.disk⟩ := by
  refine h.hide (fun _ => EmbeddingIndex.mem_deleted_tombstoneUid) ?_
  by_cases hheld : uid ∈ s.index.embeddings ∨
      s.index.inBase uid ∧ uid ∉ s.index.deletedBaseUids
  · exact .inl (if_pos hheld)
  · refine .inr ⟨if_neg hheld, ?_⟩
    rw [not_or] at hheld
    by_cases hrow : s.index.inBase uid
    · have hdeleted : uid ∈ s.index.deletedBaseUids := by
        by_contra hlive
        exact hheld.2 ⟨hrow, hlive⟩
      exact EmbeddingIndex.get_of_deleted hheld.1 hdeleted
    · exact EmbeddingIndex.get_of_not_inBase hheld.1 hrow

lemma Store.Inv.removeUid (h : s.Inv codec sha256 identity finite) (uid : String) :
    Store.Inv codec sha256 identity finite ⟨s.index.removeUid uid, s.disk⟩ :=
  h.hide (fun _ => EmbeddingIndex.mem_deleted_insert) (.inl rfl)

lemma Store.Inv.foldl {f : EmbeddingIndex F → String → EmbeddingIndex F}
    (hf : ∀ (s : Store F) uid, s.Inv codec sha256 identity finite →
      Store.Inv codec sha256 identity finite ⟨f s.index uid, s.disk⟩)
    (uids : List String) (h : s.Inv codec sha256 identity finite) :
    Store.Inv codec sha256 identity finite ⟨uids.foldl f s.index, s.disk⟩ := by
  induction uids generalizing s with
  | nil => exact h
  | cons uid uids ih => exact ih (hf s uid h)

/-- Equal fingerprints are of pipelines of one dimension. -/
lemma dimension_of_fingerprint
    (hsha256 : ∀ p q, sha256 p = sha256 q → p.producedDimension = q.producedDimension)
    {p q : EmbeddingPipelineV2} {fingerprint : String} (hp : p.fingerprint sha256 = .ok fingerprint)
    (hq : q.fingerprint sha256 = .ok fingerprint) : p.producedDimension = q.producedDimension := by
  have hdigest : ∀ {r : EmbeddingPipelineV2}, r.fingerprint sha256 = .ok fingerprint →
      "embedding-pipeline-v2:" ++ sha256 r = fingerprint := by
    intro r hr
    rw [EmbeddingPipelineV2.fingerprint] at hr
    cases hvalidate : r.validate with
    | error e =>
      rw [hvalidate] at hr
      cases hr
    | ok u =>
      rw [hvalidate] at hr
      exact Except.ok.inj hr
  have happend := congrArg String.toList ((hdigest hp).trans (hdigest hq).symm)
  rw [String.toList_append, String.toList_append] at happend
  exact hsha256 p q (String.toList_inj.mp (List.append_cancel_left happend))

/-- The pipeline is taken for an index without vectors whose base is still trusted. -/
def EmbeddingIndex.AdoptsOver (sha256 : EmbeddingPipelineV2 → String) (index : EmbeddingIndex F)
    (pipeline : EmbeddingPipelineV2) : Prop :=
  index.artifactEnvelope.isSome = true ∧ index.isEmpty = true ∧
    ∃ recorded incoming, index.recordedPipelineFingerprint = some recorded ∧
      pipeline.fingerprint sha256 = .ok incoming ∧ recorded ≠ incoming

/-- An index without a trusted base satisfies the invariant if its overlay does. -/
lemma Store.Inv.untrusted (h : s.Inv codec sha256 identity finite) {index' : EmbeddingIndex F}
    (henvelope : index'.artifactEnvelope = none) (hbase : index'.base = none)
    (hdeleted : index'.deletedBaseUids = ∅) (hrecorded : Recorded sha256 index')
    (hidle : index'.pendingDeltas = [] → index'.isEmpty = true ∧
      ∀ uid, (reload codec sha256 identity s.disk).get uid = none)
    (hoverlay : ∀ uid vector, index'.embeddings.lookup uid = some vector →
      Good finite uid vector ∧ ∃ pipeline, index'.recordedPipeline = some pipeline ∧
        vector.length = pipeline.producedDimension) :
    Store.Inv codec sha256 identity finite ⟨index', s.disk⟩ :=
  ⟨⟨EmbeddingIndex.layered_of_base_eq_none hbase hdeleted, h.sound.intact⟩, h.journal, hrecorded,
    hoverlay, .inl ⟨henvelope, hbase, hidle⟩⟩

lemma Store.Inv.deleted_eq_empty (h : s.Inv codec sha256 identity finite)
    (hbase : s.index.base = none) : s.index.deletedBaseUids = ∅ := by
  rw [Finset.eq_empty_iff_forall_notMem]
  intro uid huid
  obtain ⟨base, hmem, -⟩ := h.sound.layered.inBase uid huid
  rw [hbase] at hmem
  cases hmem

lemma Store.Inv.untrusted_of_not_adoptsOver (h : s.Inv codec sha256 identity finite)
    {pipeline : EmbeddingPipelineV2} {recorded incoming : String}
    (hadopts : ¬s.index.AdoptsOver sha256 pipeline) (hempty : s.index.isEmpty = true)
    (hrecorded : s.index.recordedPipelineFingerprint = some recorded) (hne : recorded ≠ incoming)
    (hincoming : pipeline.fingerprint sha256 = .ok incoming) :
    Untrusted codec sha256 identity s := by
  obtain huntrusted | ⟨file, loaded, replayed, htrusted⟩ := h.foundation
  · exact huntrusted
  · exact absurd ⟨htrusted.envelope, hempty, recorded, incoming, hrecorded, hincoming, hne⟩ hadopts

lemma lookup_of_insert {embeddings : AList fun _ : String => List F} {uid uid' : String}
    {vector vector' : List F} (h : (embeddings.insert uid vector).lookup uid' = some vector') :
    (uid' = uid ∧ vector' = vector) ∨ embeddings.lookup uid' = some vector' := by
  by_cases huid : uid' = uid
  · rw [huid, AList.lookup_insert] at h
    exact .inl ⟨huid, (Option.some.inj h).symm⟩
  · rw [AList.lookup_insert_ne huid] at h
    exact .inr h

/-- The first vector found has the dimension of every pipeline that the guards take for the recorded
one. -/
lemma Store.Inv.dimension_eq (h : s.Inv codec sha256 identity finite)
    (hsha256 : ∀ p q, sha256 p = sha256 q → p.producedDimension = q.producedDimension)
    {pipeline : EmbeddingPipelineV2} {incoming : String} {d : ℕ}
    (hincoming : pipeline.fingerprint sha256 = .ok incoming)
    (hrecorded : ∀ r, s.index.recordedPipelineFingerprint = some r → r = incoming)
    (hd : s.index.dimension = some d) : d = pipeline.producedDimension := by
  rw [EmbeddingIndex.dimension] at hd
  cases hentries : s.index.embeddings.entries with
  | cons entry entries =>
    have hlookup : s.index.embeddings.lookup entry.1 = some entry.2 := by
      rw [← Option.mem_def, AList.mem_lookup_iff, hentries]
      exact List.mem_cons_self
    obtain ⟨-, old, hold, hsize⟩ := h.overlay entry.1 entry.2 hlookup
    rw [hentries] at hd
    obtain rfl : entry.2.length = d := Option.some.inj hd
    obtain ⟨-, hnone⟩ | ⟨old', fingerprint, hr, hold', hfingerprint⟩ := h.recorded
    · rw [hold] at hnone
      cases hnone
    · obtain rfl := Option.some.inj (hold.symm.trans hold')
      obtain rfl := hrecorded fingerprint hr
      rw [hsize, dimension_of_fingerprint hsha256 hfingerprint hincoming]
  | nil =>
    rw [hentries] at hd
    rw [List.head?_nil, Option.map_none, Option.none_or] at hd
    obtain ⟨base, hbase, hdimension⟩ := Option.map_eq_some_iff.mp hd
    obtain huntrusted | ⟨file, loaded, replayed, htrusted⟩ := h.foundation
    · cases huntrusted.base.symm.trans hbase
    · obtain ⟨base', hbase', hdimension'⟩ := htrusted.base
      obtain rfl := Option.some.inj (hbase.symm.trans hbase')
      obtain ⟨fingerprint, hnodup, hfingerprint, -, rfl⟩ := loadBinaryV2_eq_ok htrusted.load
      obtain rfl := hrecorded fingerprint htrusted.fingerprint
      rw [← hdimension, hdimension', dimension_of_fingerprint hsha256 hfingerprint hincoming]

/-- The invariant of the index that the guards lead to carries over to the index with the vector. -/
lemma Store.Inv.accepted (h : s.Inv codec sha256 identity finite)
    (hsha256 : ∀ p q, sha256 p = sha256 q → p.producedDimension = q.producedDimension)
    {pipeline : EmbeddingPipelineV2} {incoming uid : String} {vector : List F} {force : Bool}
    {start : EmbeddingIndex F} (hgood : Good finite uid vector)
    (hadopts : ¬s.index.AdoptsOver sha256 pipeline)
    (hincoming : pipeline.fingerprint sha256 = .ok incoming)
    (hsize : vector.length = pipeline.producedDimension)
    (hadmitted : s.index.Admitted incoming pipeline vector.length force start) :
    Store.Inv codec sha256 identity finite
      ⟨(start.upsert uid vector).record incoming pipeline, s.disk⟩ := by
  have hrecordedNew : Recorded sha256 ((start.upsert uid vector).record incoming pipeline) :=
    .inr ⟨pipeline, incoming, rfl, rfl, hincoming⟩
  -- without a trusted base, all that matters is what the overlay held
  have huntrusted : start.artifactEnvelope = none → start.base = none → start.deletedBaseUids = ∅ →
      (∀ uid vector, start.embeddings.lookup uid ≠ some vector) →
      Store.Inv codec sha256 identity finite
        ⟨(start.upsert uid vector).record incoming pipeline, s.disk⟩ := by
    intro henvelope hbase hdeleted hoverlay
    refine h.untrusted henvelope hbase ?_ hrecordedNew (fun hnil => ?_) fun uid' vector' hlookup => ?_
    · change start.deletedBaseUids.erase uid = ∅
      rw [hdeleted, Finset.erase_empty]
    · exact absurd hnil (List.append_ne_nil_of_right_ne_nil _ (List.cons_ne_nil _ _))
    · obtain ⟨rfl, rfl⟩ | hold := lookup_of_insert hlookup
      · exact ⟨hgood, pipeline, rfl, hsize⟩
      · exact absurd hold (hoverlay uid' vector')
  cases hadmitted with
  | resized d hrecorded hd hne =>
    exact absurd (hsize.trans (h.dimension_eq hsha256 hincoming hrecorded hd).symm) hne
  | adoptedResized r hr hne hempty =>
    have henvelope := (h.untrusted_of_not_adoptsOver hadopts hempty hr hne hincoming).envelope
    exact huntrusted henvelope rfl rfl fun uid vector hlookup => by
      simp [EmbeddingIndex.clearSpace] at hlookup
  | switched =>
    exact huntrusted rfl rfl rfl fun uid vector hlookup => by
      simp [EmbeddingIndex.clearSpace] at hlookup
  | adopted r hr hne hempty =>
    obtain ⟨henvelope, hbase, -⟩ := h.untrusted_of_not_adoptsOver hadopts hempty hr hne hincoming
    refine huntrusted henvelope hbase (h.deleted_eq_empty hbase) fun uid vector hlookup => ?_
    have hentry := AList.mem_lookup_iff.mp (Option.mem_def.mpr hlookup)
    have hnil : s.index.embeddings.entries = [] := (EmbeddingIndex.isEmpty_iff.mp hempty).1
    change _ ∈ s.index.embeddings.entries at hentry
    rw [hnil] at hentry
    cases hentry
  | same hrecorded =>
    refine ⟨⟨(h.sound.layered.upsert uid vector).congr rfl rfl rfl, h.sound.intact⟩, h.journal,
      hrecordedNew, fun uid' vector' hlookup => ?_, ?_⟩
    · obtain ⟨rfl, rfl⟩ | hold := lookup_of_insert hlookup
      · exact ⟨hgood, pipeline, rfl, hsize⟩
      · obtain ⟨hgood', old, hold', hsize'⟩ := h.overlay uid' vector' hold
        refine ⟨hgood', pipeline, rfl, ?_⟩
        obtain ⟨-, hnone⟩ | ⟨old', fingerprint, hr, hold'', hfingerprint⟩ := h.recorded
        · rw [hold'] at hnone
          cases hnone
        · obtain rfl := Option.some.inj (hold'.symm.trans hold'')
          obtain rfl := hrecorded fingerprint hr
          rw [hsize', dimension_of_fingerprint hsha256 hfingerprint hincoming]
    · obtain huntrusted | ⟨file, loaded, replayed, htrusted⟩ := h.foundation
      · refine .inl ⟨huntrusted.envelope, huntrusted.base, fun hnil => ?_⟩
        exact absurd hnil (List.append_ne_nil_of_right_ne_nil _ (List.cons_ne_nil _ _))
      · refine .inr ⟨file, loaded, replayed, htrusted.index rfl rfl ?_ rfl rfl ?_ ?_ ?_⟩
        · obtain ⟨fingerprint, hnodup, -, -, rfl⟩ := loadBinaryV2_eq_ok htrusted.load
          have hr : s.index.recordedPipelineFingerprint = some fingerprint := htrusted.fingerprint
          obtain rfl := hrecorded fingerprint hr
          exact hr.symm
        · intro hnil
          exact absurd hnil (List.append_ne_nil_of_right_ne_nil _ (List.cons_ne_nil _ _))
        · have hget : EmbeddingIndex.get ((s.index.upsert uid vector).record incoming pipeline) =
              Function.update s.index.get uid (some vector) := EmbeddingIndex.get_store rfl rfl rfl
          rw [hget]
          refine htrusted.tracks.upsert ?_ fun uid' huid => Function.update_of_ne huid ..
          rw [Function.update_self]
          rfl
        · intro uid' houtcome
          change Delta.outcome uid' (s.index.pendingDeltas ++ [Delta.upsert uid ()]) = _ at houtcome
          change uid' ∈ s.index.embeddings.insert uid vector
          rw [AList.mem_insert]
          by_cases huid : uid' = uid
          · exact .inl huid
          · rw [Delta.outcome_concat, Delta.effect, if_neg (Ne.symm huid), Option.none_or] at houtcome
            exact .inr (htrusted.upserts uid' houtcome)

/-- A vector that is added, and the pipeline it comes from. -/
lemma Store.Inv.addWithPipeline (h : s.Inv codec sha256 identity finite)
    (hsha256 : ∀ p q, sha256 p = sha256 q → p.producedDimension = q.producedDimension)
    {pipeline : EmbeddingPipelineV2} {uid : String} {vector : List F} (force : Bool)
    (hgood : Good finite uid vector) (hadopts : ¬s.index.AdoptsOver sha256 pipeline) :
    Store.Inv codec sha256 identity finite
      ⟨(s.index.addWithPipeline sha256 uid vector pipeline force).1, s.disk⟩ := by
  obtain ⟨incoming, start, hincoming, hsize, hadmitted, hadd⟩ | hadd |
    ⟨incoming, r, hincoming, hr, hne, hempty, hadd⟩ :=
      EmbeddingIndex.addWithPipeline_cases sha256 s.index uid vector pipeline force
  · rw [hadd]
    exact h.accepted hsha256 hgood hadopts hincoming hsize hadmitted
  · rw [hadd]
    exact h
  · obtain ⟨henvelope, hbase, hidle⟩ := h.untrusted_of_not_adoptsOver hadopts hempty hr hne hincoming
    rw [hadd]
    refine h.untrusted henvelope hbase (h.deleted_eq_empty hbase)
      (.inr ⟨pipeline, incoming, rfl, rfl, hincoming⟩) hidle fun uid' vector' hlookup => ?_
    have hlive : s.index.get uid' = some vector' := EmbeddingIndex.get_of_mem hlookup
    rw [EmbeddingIndex.get_of_isEmpty hempty] at hlive
    cases hlive

end Embedding
end NestWeaver
