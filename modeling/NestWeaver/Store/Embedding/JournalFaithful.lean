import NestWeaver.Store.Embedding.JournalInvariant

/-!
# The embedding journal is faithful

An append makes the journal lead to the live vectors (`Store.Inv.append`), and a checkpoint the base
(`Store.Inv.checkpoint`).  So persisting keeps the invariant, and when it succeeds, what is on disk is
what is live (`Store.Inv.persist`).
-/

set_option linter.all false

namespace NestWeaver
namespace Embedding

open Transition

variable {F : Type*} {codec : JournalCodec F} {sha256 : EmbeddingPipelineV2 → String}
  {identity : PublicationIdentity} {finite : F → Prop} {s t : Store F}

/-! ## Appending -/

/-- What is encoded is parsed again, if all components are finite. -/
def JournalCodec.Faithful (codec : JournalCodec F) (finite : F → Prop) : Prop :=
  ∀ record : EmbeddingJournalRecord F,
    (∀ uid vector, record.payload.delta = .upsert uid vector → ∀ x ∈ vector, finite x) →
      codec.parseRecord (codec.recordBytes record) = some record

lemma bindDelta_eq_ok {get : String → Option (List F)} {delta : EmbeddingDelta}
    {bound : Delta String (List F)} : bindDelta get delta = .ok bound ↔ delta.bind get = some bound := by
  cases delta with
  | clear => simp [bindDelta, Delta.bind]
  | delete uid => simp [bindDelta, Delta.bind]
  | upsert uid u =>
    cases hget : get uid with
    | none => simp [bindDelta, Delta.bind, hget]
    | some vector => simp [bindDelta, Delta.bind, hget]

/-- The records of an append: they follow the journal, and replaying them makes the changes. -/
structure Appends (codec : JournalCodec F) (identity : PublicationIdentity) (finite : F → Prop)
    (pipeline : EmbeddingPipelineV2) (fingerprint : String) (get : String → Option (List F))
    (pending : List EmbeddingDelta) (n n' : ℕ) (bodies : List (List UInt8))
    (bound : List (Delta String (List F))) : Prop where
  fits : ∀ body ∈ bodies, body.length ≤ maxRecordBytes
  parses : ∀ body ∈ bodies, ∃ record, codec.parseRecord body = some record ∧
    GoodDelta finite record.payload.delta
  binds : List.Forall₂ (fun delta delta' => delta.bind get = some delta') pending bound
  replays : ∀ index, ∃ index',
    bodies.foldlM (replayRecord codec identity fingerprint pipeline) (index, n) = .ok (index', n') ∧
      index'.get = Delta.replay index.get bound ∧ index'.base = index.base

lemma appends_of_encode (hcodec : codec.Faithful finite) {pipeline : EmbeddingPipelineV2}
    {fingerprint : String} {get : String → Option (List F)} {pending : List EmbeddingDelta}
    {journal journal' : List UInt8} {n n' : ℕ}
    (h : pending.foldlM (encodeDelta codec identity get fingerprint) (journal, n) =
      .ok (journal', n'))
    (hclear : .clear ∉ pending)
    (hgood : ∀ uid vector, .upsert uid () ∈ pending → get uid = some vector →
      Good finite uid vector ∧ vector.length = pipeline.producedDimension) :
    ∃ bodies bound, journal' = journal ++ bodies.flatMap Framing.frame ∧
      Appends codec identity finite pipeline fingerprint get pending n n' bodies bound := by
  induction pending generalizing journal n with
  | nil =>
    obtain ⟨rfl, rfl⟩ := Prod.mk.inj (Except.ok.inj h)
    refine ⟨[], [], (List.append_nil _).symm, by simp, by simp, .nil, fun index => ?_⟩
    exact ⟨index, rfl, rfl, rfl⟩
  | cons delta pending ih =>
    rw [List.foldlM_cons, encodeDelta] at h
    dsimp only at h
    cases hbind : bindDelta get delta with
    | error e =>
      rw [hbind] at h
      cases h
    | ok bound =>
      rw [hbind] at h
      dsimp only at h
      set record := EmbeddingJournalPayload.seal codec
        ⟨nextSequence n, identity, fingerprint, bound⟩ with hrecord
      by_cases hlarge : maxRecordBytes < (codec.recordBytes record).length
      · rw [if_pos hlarge] at h
        cases h
      rw [if_neg hlarge] at h
      have hbound := bindDelta_eq_ok.mp hbind
      -- the change with its vector is good
      have hdelta : GoodDelta finite bound ∧ ∀ uid vector, bound = .upsert uid vector →
          vector.length = pipeline.producedDimension := by
        cases delta with
        | clear => exact absurd List.mem_cons_self hclear
        | delete uid =>
          obtain rfl := Option.some.inj hbound
          exact ⟨trivial, fun uid vector h => by cases h⟩
        | upsert uid u =>
          obtain ⟨vector, hvector, rfl⟩ := Option.map_eq_some_iff.mp hbound
          obtain ⟨hgood', hsize⟩ := hgood uid vector List.mem_cons_self hvector
          refine ⟨hgood', ?_⟩
          rintro uid' vector' heq
          obtain ⟨rfl, rfl⟩ := Delta.upsert.inj heq
          exact hsize
      have hparse : codec.parseRecord (codec.recordBytes record) = some record := by
        refine hcodec record fun uid vector heq => ?_
        have hgood' : GoodDelta finite (.upsert uid vector) := heq ▸ hdelta.1
        exact hgood'.finite
      obtain ⟨bodies, bounds, hjournal, happends⟩ := ih h
        (fun hmem => hclear (List.mem_cons_of_mem _ hmem))
        fun uid vector hmem => hgood uid vector (List.mem_cons_of_mem _ hmem)
      refine ⟨codec.recordBytes record :: bodies, bound :: bounds, ?_, ?_, ?_, .cons hbound
        happends.binds, fun index => ?_⟩
      · rw [hjournal, List.flatMap_cons, List.append_assoc]
      · rw [List.forall_mem_cons]
        exact ⟨Nat.le_of_not_lt hlarge, happends.fits⟩
      · rw [List.forall_mem_cons]
        exact ⟨⟨record, hparse, hdelta.1⟩, happends.parses⟩
      · obtain ⟨index₁, hfirst, hreplays⟩ := replayRecord_seal index hparse hdelta.2
        obtain ⟨index', hrest, hget, hbase⟩ := happends.replays index₁
        refine ⟨index', ?_, ?_, ?_⟩
        · rw [List.foldlM_cons, hfirst]
          exact hrest
        · rw [hget, hreplays.get]
          rfl
        · rw [hbase, hreplays.base]
          rintro rfl
          exact hdelta.1

/-- Encoding succeeds if every change finds its vector and fits its record. -/
lemma encode_isOk {fingerprint : String} {get : String → Option (List F)}
    {pending : List EmbeddingDelta}
    (hbind : ∀ delta ∈ pending, (delta.bind get).isSome) {top : ℕ}
    (hfits : ∀ delta ∈ pending, ∀ bound ∈ delta.bind get, ∀ sequence ≤ top,
      (codec.recordBytes (EmbeddingJournalPayload.seal codec
        ⟨sequence, identity, fingerprint, bound⟩)).length ≤ maxRecordBytes)
    (journal : List UInt8) (n : ℕ) (htop : n + pending.length ≤ top) :
    ∃ journal' n', pending.foldlM (encodeDelta codec identity get fingerprint) (journal, n) =
      .ok (journal', n') := by
  induction pending generalizing journal n with
  | nil => exact ⟨journal, n, rfl⟩
  | cons delta pending ih =>
    rw [List.forall_mem_cons] at hbind hfits
    obtain ⟨bound, hbound⟩ := Option.isSome_iff_exists.mp hbind.1
    rw [List.length_cons] at htop
    have hnext : nextSequence n ≤ n + 1 := min_le_left ..
    have hlarge := hfits.1 bound hbound (nextSequence n) (by omega)
    rw [List.foldlM_cons, encodeDelta]
    dsimp only
    rw [bindDelta_eq_ok.mpr hbound]
    dsimp only
    rw [if_neg (Nat.not_lt.mpr hlarge)]
    exact ih hbind.2 hfits.2 _ _ (by omega)

lemma requireRecordedPipeline_eq_ok {index : EmbeddingIndex F} {pipeline : EmbeddingPipelineV2}
    {fingerprint : String} (h : index.requireRecordedPipeline sha256 pipeline = .ok fingerprint) :
    pipeline.fingerprint sha256 = .ok fingerprint ∧
      index.recordedPipelineFingerprint = some fingerprint := by
  rw [EmbeddingIndex.requireRecordedPipeline] at h
  cases hfingerprint : pipeline.fingerprint sha256 with
  | error e =>
    rw [hfingerprint] at h
    cases h
  | ok persisted =>
    rw [hfingerprint] at h
    cases hproducer : index.recordedPipelineFingerprint with
    | none =>
      rw [hproducer] at h
      cases h
    | some producer =>
      rw [hproducer] at h
      dsimp only at h
      by_cases heq : producer = persisted
      · rw [if_pos heq] at h
        obtain rfl := Except.ok.inj h
        exact ⟨rfl, congrArg some heq⟩
      · rw [if_neg heq] at h
        cases h

/-- A journal of whole records replays as its records do. -/
lemma replayJournalV2_of_foldlM {loaded index' : EmbeddingIndex F} {pipeline : EmbeddingPipelineV2}
    {fingerprint : String} {bytes : List UInt8} {bodies : List (List UInt8)} {n : ℕ}
    (hjournaled : Journaled codec finite bytes bodies)
    (hfingerprint : pipeline.fingerprint sha256 = .ok fingerprint)
    (hfold : bodies.foldlM (replayRecord codec identity fingerprint pipeline) (loaded, 0) =
      .ok (index', n)) :
    replayJournalV2 codec sha256 identity loaded (some bytes) pipeline = .ok { index' with
      journalSequence := n
      journalValidBytes := some bytes.length
      pendingDeltas := [] } := by
  have hmagic : embeddingJournalMagic <+: bytes := by
    rw [hjournaled.bytes]
    exact List.prefix_append ..
  unfold replayJournalV2
  dsimp only
  rw [if_neg (not_not_intro hmagic), hfingerprint]
  dsimp only
  rw [hjournaled.scan]
  dsimp only
  rw [hfold]
  rfl

/-- The valid journal, from its first record. -/
lemma Trusted.replays {file : BaseFile F} {loaded replayed : EmbeddingIndex F}
    (h : Trusted codec sha256 identity finite s file loaded replayed) :
    ∃ bodies index₀ fingerprint,
      Journaled codec finite (s.validJournal.getD embeddingJournalMagic) bodies ∧
      file.envelope.pipeline.fingerprint sha256 = .ok fingerprint ∧
      s.index.recordedPipelineFingerprint = some fingerprint ∧
      bodies.foldlM (replayRecord codec identity fingerprint file.envelope.pipeline) (loaded, 0) =
        .ok (index₀, s.index.journalSequence) ∧
      index₀.get = replayed.get := by
  have hsequence := h.sequence
  obtain ⟨fingerprint, hnodup, hfingerprint, -, hmapped⟩ := loadBinaryV2_eq_ok h.load
  have hrecorded : s.index.recordedPipelineFingerprint = some fingerprint := by
    rw [h.fingerprint, hmapped]
    rfl
  obtain ⟨hnone, rfl⟩ | ⟨bytes, fp, index', n', hbytes, -, hfp, hfold, rfl⟩ :=
    replayJournalV2_eq_ok h.replay
  · refine ⟨[], replayed, fingerprint, ⟨?_, by simp, by simp⟩, hfingerprint, hrecorded, ?_, rfl⟩
    · rw [hnone]
      exact (List.append_nil _).symm
    · rw [hsequence, hmapped]
      rfl
  · obtain ⟨bodies, hjournaled⟩ := h.journaled bytes hbytes
    obtain rfl := Except.ok.inj (hfingerprint.symm.trans hfp)
    rw [hjournaled.bodies] at hfold
    refine ⟨bodies, index', fingerprint, ?_, hfingerprint, hrecorded, ?_, ?_⟩
    · rw [hbytes]
      exact hjournaled
    · rw [hfold, hsequence]
    · exact (EmbeddingIndex.get_congr rfl rfl rfl).symm

/-- What an append cuts off is not valid. -/
lemma Store.elim_journalValidBytes (s : Store F)
    (hwithin : ∀ n, s.index.journalValidBytes = some n →
      ∃ bytes, s.disk.journal = some bytes ∧ n ≤ bytes.length) :
    s.index.journalValidBytes.elim (s.disk.journal.getD embeddingJournalMagic)
      (s.disk.journal.getD embeddingJournalMagic).take =
        s.validJournal.getD embeddingJournalMagic := by
  rw [Store.validJournal]
  cases hvalid : s.index.journalValidBytes with
  | none => rfl
  | some n =>
    obtain ⟨bytes, hbytes, -⟩ := hwithin n hvalid
    rw [hbytes]
    rfl

/-- What an append writes leads to what is live. -/
lemma Store.Inv.encoded (h : s.Inv codec sha256 identity finite) (hcodec : codec.Faithful finite)
    (hsha256 : ∀ p q, sha256 p = sha256 q → p.producedDimension = q.producedDimension)
    {journal : List UInt8} {sequence : ℕ} (htrusted : s.trusted)
    (hencodes : s.encodes codec sha256 identity journal sequence) :
    ∃ file loaded replayed replayed' bodies added,
      Trusted codec sha256 identity finite s file loaded replayed ∧
      journal = s.validJournal.getD embeddingJournalMagic ++ added ∧
      Journaled codec finite journal bodies ∧
      replayJournalV2 codec sha256 identity loaded (some journal) file.envelope.pipeline =
        .ok replayed' ∧
      replayed'.journalSequence = sequence ∧ replayed'.get = s.index.get := by
  obtain huntrusted | ⟨file, loaded, replayed, hbase⟩ := h.foundation
  · have hsome := htrusted.2
    rw [huntrusted.envelope] at hsome
    cases hsome
  obtain ⟨pipeline, fingerprint', hpipeline, hrequire, -, hencode⟩ := hencodes
  obtain ⟨bodies, index₀, fingerprint, hjournaled, hfingerprint, hrecorded, hfold, hget₀⟩ :=
    hbase.replays
  obtain ⟨hfingerprint', hrecorded'⟩ := requireRecordedPipeline_eq_ok hrequire
  obtain rfl := Option.some.inj (hrecorded'.symm.trans hrecorded)
  rw [s.elim_journalValidBytes hbase.within] at hencode
  have hsub := Delta.unsuperseded_sublist s.index.pendingDeltas
  have hclear : .clear ∉ (Delta.unsuperseded s.index.pendingDeltas).2 :=
    fun hmem => hbase.tracks.clear (hsub.mem hmem)
  have hgood : ∀ uid vector, .upsert uid () ∈ (Delta.unsuperseded s.index.pendingDeltas).2 →
      s.index.get uid = some vector →
      Good finite uid vector ∧ vector.length = file.envelope.pipeline.producedDimension := by
    intro uid vector hmem hlive
    obtain ⟨value, houtcome⟩ := Delta.outcome_of_kept hbase.tracks.clear hmem
    obtain ⟨overlay, hoverlay⟩ := Option.isSome_iff_exists.mp
      (AList.lookup_isSome.mpr (hbase.upserts uid houtcome))
    obtain rfl := Option.some.inj ((EmbeddingIndex.get_of_mem hoverlay).symm.trans hlive)
    obtain ⟨hgood, old, hold, hsize⟩ := h.overlay uid overlay hoverlay
    obtain rfl := Option.some.inj (hpipeline.symm.trans hold)
    exact ⟨hgood, hsize.trans (dimension_of_fingerprint hsha256 hfingerprint' hfingerprint)⟩
  obtain ⟨more, bound, rfl, happends⟩ := appends_of_encode hcodec hencode hclear hgood
  obtain ⟨index₁, hmore, hget₁, -⟩ := happends.replays index₀
  have hjournaled' : Journaled codec finite
      (s.validJournal.getD embeddingJournalMagic ++ more.flatMap Framing.frame)
      (bodies ++ more) := by
    refine ⟨?_, ?_, ?_⟩
    · rw [hjournaled.bytes, List.append_assoc, ← List.flatMap_append]
    · exact fun body hbody => (List.mem_append.mp hbody).elim (hjournaled.fits body)
        (happends.fits body)
    · exact fun body hbody => (List.mem_append.mp hbody).elim (hjournaled.parses body)
        (happends.parses body)
  have hfold' : (bodies ++ more).foldlM
      (replayRecord codec identity fingerprint' file.envelope.pipeline) (loaded, 0) =
        .ok (index₁, sequence) := by
    rw [List.foldlM_append, hfold]
    exact hmore
  refine ⟨file, loaded, replayed, _, bodies ++ more, _, hbase, rfl, hjournaled',
    replayJournalV2_of_foldlM hjournaled' hfingerprint hfold', rfl, ?_⟩
  have hlive : index₁.get = s.index.get := by
    rw [hget₁, hget₀]
    exact hbase.tracks.replay_bind happends.binds
  exact (EmbeddingIndex.get_congr rfl rfl rfl).trans hlive

/-- **An append** makes the journal lead to what is live. -/
lemma Store.Inv.append (h : s.Inv codec sha256 identity finite) (hcodec : codec.Faithful finite)
    (hsha256 : ∀ p q, sha256 p = sha256 q → p.producedDimension = q.producedDimension)
    {journal : List UInt8} {sequence : ℕ} (htrusted : s.trusted)
    (hencodes : s.encodes codec sha256 identity journal sequence) :
    let appended : Store F :=
      { index :=
          { s.index with
            pendingDeltas := []
            journalSequence := sequence
            journalValidBytes := none }
        disk := { s.disk with journal := some journal } }
    appended.Inv codec sha256 identity finite ∧
      (reload codec sha256 identity appended.disk).get = s.index.get := by
  intro appended
  obtain ⟨file, loaded, replayed, replayed', bodies, added, hbase, -, hjournaled, hreplay, hsequence,
    hlive⟩ := h.encoded hcodec hsha256 htrusted hencodes
  have hreload : reload codec sha256 identity appended.disk = replayed' := by
    simp only [reload, appended, hbase.onDisk, hbase.load, hreplay]
  have happended : appended.index.get = s.index.get := EmbeddingIndex.get_congr rfl rfl rfl
  have hwritten : ∀ bytes, some journal = some bytes →
      ∃ bodies, Journaled codec finite bytes bodies := by
    intro bytes hbytes
    obtain rfl := Option.some.inj hbytes
    exact ⟨bodies, hjournaled⟩
  refine ⟨⟨⟨h.sound.layered.congr rfl rfl rfl, h.sound.intact⟩, hwritten, h.recorded, h.overlay,
    .inr ⟨file, loaded, replayed', ?_⟩⟩, ?_⟩
  · refine ⟨hbase.envelope, hbase.onDisk, hbase.load, hwritten, hreplay, hbase.base,
      hbase.fingerprint, hsequence.symm, fun _ => rfl, fun n hn => (by cases hn), ?_,
      fun uid houtcome => by cases houtcome⟩
    rw [happended, ← hlive]
    exact .nil _
  · rw [hreload, hlive]

/-- An append that is made and reported as failed is cut off by the next one, if the valid length of the
journal is known. -/
lemma Store.Inv.synced (h : s.Inv codec sha256 identity finite) (hcodec : codec.Faithful finite)
    (hsha256 : ∀ p q, sha256 p = sha256 q → p.producedDimension = q.producedDimension)
    {journal : List UInt8} {sequence : ℕ} (htrusted : s.trusted)
    (hencodes : s.encodes codec sha256 identity journal sequence)
    (hpending : s.index.pendingDeltas ≠ []) (hvalid : s.index.journalValidBytes.isSome = true) :
    Store.Inv codec sha256 identity finite
      ⟨s.index, { s.disk with journal := some journal }⟩ := by
  obtain ⟨file, loaded, replayed, replayed', bodies, added, hbase, hjournal, hjournaled, -, -, -⟩ :=
    h.encoded hcodec hsha256 htrusted hencodes
  obtain ⟨n, hn⟩ := Option.isSome_iff_exists.mp hvalid
  obtain ⟨bytes, hbytes, hle⟩ := hbase.within n hn
  have hold : s.validJournal = some (bytes.take n) := by
    rw [Store.validJournal, hn, hbytes]
    rfl
  have hlength : (bytes.take n).length = n := List.length_take_of_le hle
  have hcut : journal.take n = bytes.take n := by
    rw [hjournal, hold, Option.getD_some, List.take_append_of_le_length hlength.ge, List.take_take,
      min_self]
  have hnew : Store.validJournal ⟨s.index, { s.disk with journal := some journal }⟩ =
      s.validJournal := by
    rw [hold, Store.validJournal, hn, Option.elim_some, Option.map_some, hcut]
  refine ⟨⟨h.sound.layered, h.sound.intact⟩, ?_, h.recorded, h.overlay,
    .inr ⟨file, loaded, replayed, ?_⟩⟩
  · intro bytes hbytes
    obtain rfl := Option.some.inj hbytes
    exact ⟨bodies, hjournaled⟩
  · refine ⟨hbase.envelope, hbase.onDisk, hbase.load, ?_, ?_, hbase.base, hbase.fingerprint,
      hbase.sequence, fun hnil => absurd hnil hpending, ?_, hbase.tracks, hbase.upserts⟩
    · rw [hnew]
      exact hbase.journaled
    · rw [hnew]
      exact hbase.replay
    · intro n' hn'
      obtain rfl := Option.some.inj (hn.symm.trans hn')
      refine ⟨journal, rfl, ?_⟩
      rw [hjournal, hold, Option.getD_some, List.length_append, hlength]
      exact Nat.le_add_right _ _

/-! ## Checkpoints -/

lemma EmbeddingIndex.mem_snapshotEntries {index : EmbeddingIndex F}
    (hintact : ∀ base, index.base = some base → base.payloadIntact = true) {uid : String} {vector : List F} :
    (uid, vector) ∈ index.snapshotEntries ↔ index.get uid = some vector := by
  rw [EmbeddingIndex.snapshotEntries, List.mem_insertionSort, List.mem_append]
  constructor
  · rintro (hoverlay | hrow)
    · obtain ⟨entry, hentry, heq⟩ := List.mem_map.mp hoverlay
      obtain ⟨rfl, rfl⟩ := Prod.mk.inj heq
      exact EmbeddingIndex.get_of_mem (AList.mem_lookup_iff.mpr hentry)
    · obtain ⟨⟨base, hbase, hmem⟩, hdeleted, hoverlay⟩ := EmbeddingIndex.mem_liveRows.mp hrow
      exact EmbeddingIndex.get_of_row hbase (hintact base hbase) hoverlay hdeleted hmem
  · intro hlive
    obtain hoverlay | ⟨hoverlay, hdeleted, base, hbase, hrow⟩ := EmbeddingIndex.get_eq_some hlive
    · exact .inl (List.mem_map.mpr ⟨⟨uid, vector⟩, AList.mem_lookup_iff.mp hoverlay, rfl⟩)
    · exact .inr (EmbeddingIndex.mem_liveRows.mpr ⟨⟨base, hbase, hrow⟩, hdeleted, hoverlay⟩)

lemma EmbeddingIndex.nodup_snapshotEntries (index : EmbeddingIndex F) :
    (index.snapshotEntries.map Prod.fst).Nodup := by
  have hperm : (index.snapshotEntries.map Prod.fst).Perm index.allUids := by
    refine ((List.perm_insertionSort _ _).map _).trans (List.Perm.of_eq ?_)
    rw [List.map_append, List.map_map, EmbeddingIndex.allUids]
    rfl
  exact hperm.nodup_iff.mpr EmbeddingIndex.nodup_allUids

/-- The index over the rows that were written has the vectors that were live. -/
lemma get_mapped {index : EmbeddingIndex F} (h : index.Layered) {pipeline : EmbeddingPipelineV2}
    {file : BaseFile F} (hsaves : Saves sha256 index identity pipeline file) {fingerprint : String}
    {hnodup : (file.rows.map Prod.fst).Nodup} : (file.mapped fingerprint hnodup).get = index.get := by
  have hlayered : (file.mapped fingerprint hnodup).Layered := layered_mapped hsaves.intact
  have hsome : ∀ uid vector, (file.mapped fingerprint hnodup).get uid = some vector ↔
      index.get uid = some vector := by
    intro uid vector
    rw [← EmbeddingIndex.mem_snapshotEntries hlayered.intact, ← EmbeddingIndex.mem_snapshotEntries h.intact,
      ← hsaves.rows]
    have hrows : (uid, vector) ∈ (file.mapped fingerprint hnodup).snapshotEntries ↔
        (uid, vector) ∈ file.rows := by
      rw [EmbeddingIndex.snapshotEntries, List.mem_insertionSort, List.mem_append,
        EmbeddingIndex.mem_liveRows]
      simp [BaseFile.mapped]
    exact hrows
  funext uid
  exact Option.ext (hsome uid)

/-- A checkpoint is made of an index that no base carries, and for a reason. -/
lemma Store.Inv.of_saves (h : s.Inv codec sha256 identity finite) {file : BaseFile F}
    (hsaves : s.saves sha256 identity file) :
    Untrusted codec sha256 identity s ∧ s.index.pendingDeltas ≠ [] := by
  obtain ⟨hidle, htrusted, -⟩ := hsaves
  obtain huntrusted | ⟨file', loaded, replayed, hbase⟩ := h.foundation
  · exact ⟨huntrusted, fun hnil => hidle ⟨(huntrusted.idle hnil).1, hnil⟩⟩
  · refine absurd ⟨?_, hbase.envelope⟩ htrusted
    rw [hbase.onDisk]
    rfl

/-- An index that no base carries does not depend on the files. -/
lemma Store.Inv.withDisk (h : s.Inv codec sha256 identity finite)
    (huntrusted : Untrusted codec sha256 identity s) (hpending : s.index.pendingDeltas ≠ [])
    {disk : Disk F} (hintact : ∀ file, disk.base = some file → file.intact = true)
    (hjournal : ∀ bytes, disk.journal = some bytes → s.disk.journal = some bytes) :
    Store.Inv codec sha256 identity finite ⟨s.index, disk⟩ :=
  ⟨⟨h.sound.layered, hintact⟩, fun bytes hbytes => h.journal bytes (hjournal bytes hbytes),
    h.recorded, h.overlay,
    .inl ⟨huntrusted.envelope, huntrusted.base, fun hnil => absurd hnil hpending⟩⟩

/-- **A checkpoint** makes the base lead to what is live. -/
lemma Store.Inv.checkpoint (h : s.Inv codec sha256 identity finite) {file : BaseFile F}
    {loaded : EmbeddingIndex F} (hsaves : s.saves sha256 identity file)
    (hload : loadBinaryV2 sha256 file = .ok loaded) :
    Store.Inv codec sha256 identity finite ⟨loaded, some file, none⟩ ∧
      loaded.get = s.index.get ∧
      reload codec sha256 identity ⟨some file, none⟩ = loaded := by
  have hreload : reload codec sha256 identity ⟨some file, none⟩ = loaded := by
    simp only [reload, hload, replayJournalV2]
  obtain ⟨-, -, pipeline, -, hsave⟩ := hsaves
  have hfile := saveBinaryV2_eq_ok hsave
  refine ⟨?_, ?_, hreload⟩
  · have hopened : (Store.opened codec sha256 identity ⟨some file, none⟩).Inv codec sha256 identity
        finite := by
      refine inv_opened ?_ fun bytes hbytes => by cases hbytes
      intro file' hfile'
      obtain rfl := Option.some.inj hfile'
      exact hfile.intact
    rw [Store.opened, hreload] at hopened
    exact hopened
  · obtain ⟨fingerprint, hnodup, -, -, rfl⟩ := loadBinaryV2_eq_ok hload
    exact get_mapped h.sound.layered hfile

lemma Store.Inv.dropSuperseded (h : s.Inv codec sha256 identity finite) :
    s.dropSuperseded.Inv codec sha256 identity finite := by
  refine ⟨⟨h.sound.layered.congr rfl rfl rfl, h.sound.intact⟩, h.journal, h.recorded, h.overlay, ?_⟩
  obtain huntrusted | ⟨file, loaded, replayed, hbase⟩ := h.foundation
  · refine .inl ⟨huntrusted.envelope, huntrusted.base, fun hnil => ?_⟩
    exact huntrusted.idle (Delta.unsuperseded_eq_nil hnil)
  · refine .inr ⟨file, loaded, replayed, hbase.index rfl rfl rfl rfl rfl Delta.unsuperseded_eq_nil
      hbase.tracks.dropSuperseded fun uid houtcome => ?_⟩
    exact hbase.upserts uid ((Delta.outcome_unsuperseded uid _).symm.trans houtcome)

/-! ## Persisting -/

/-- Without pending changes, what is on disk is what is live. -/
lemma Store.Inv.current (h : s.Inv codec sha256 identity finite)
    (hpending : s.index.pendingDeltas = []) :
    (reload codec sha256 identity s.disk).get = s.index.get := by
  obtain huntrusted | ⟨file, loaded, replayed, hbase⟩ := h.foundation
  · obtain ⟨hempty, hdisk⟩ := huntrusted.idle hpending
    funext uid
    rw [hdisk uid, EmbeddingIndex.get_of_isEmpty hempty]
  · have hreplay := hbase.replay
    rw [hbase.valid hpending] at hreplay
    have hreload : reload codec sha256 identity s.disk = replayed := by
      simp only [reload, hbase.onDisk, hbase.load, hreplay]
    have htracks := hbase.tracks
    rw [hpending] at htracks
    rw [hreload]
    funext uid
    exact (htracks.same uid rfl).symm

/-- **Persisting is faithful.**  It keeps the invariant, unless an append is reported as failed after it
was made and the valid length of the journal is not known, or the journal of another base stays; and
when it succeeds, what is on disk is what was live and still is. -/
lemma Store.Inv.persist (h : s.Inv codec sha256 identity finite) (hcodec : codec.Faithful finite)
    (hsha256 : ∀ p q, sha256 p = sha256 q → p.producedDimension = q.producedDimension)
    {fault : Option Fault} {adoptFirst : Bool}
    (hsynced : s.trusted → fault = some .syncJournal → s.index.journalValidBytes.isSome = true)
    (hretired : ¬s.trusted → adoptFirst = true → fault = some .removeJournal →
      s.disk.journal = none)
    {s' : Store F} {r : Except String Unit}
    (hpersist : s.persist codec sha256 identity fault adoptFirst = (s', r)) :
    s'.Inv codec sha256 identity finite ∧
      (r = .ok () → s'.index.get = s.index.get ∧
        (reload codec sha256 identity s'.disk).get = s'.index.get) := by
  cases persists_of_eq hpersist with
  | idle hempty hpending => exact ⟨h, fun _ => ⟨rfl, h.current hpending⟩⟩
  | refused => exact ⟨h, fun hok => by cases hok⟩
  | current htrusted hpending => exact ⟨h, fun _ => ⟨rfl, h.current hpending⟩⟩
  | kept => exact ⟨h.dropSuperseded, fun hok => by cases hok⟩
  | synced e journal sequence hfault htrusted hencodes =>
    refine ⟨?_, fun hok => by cases hok⟩
    by_cases hpending : s.index.pendingDeltas = []
    · -- nothing is appended
      have hpersist' : s.persist codec sha256 identity fault adoptFirst = (s, .ok ()) := by
        obtain ⟨pipeline, fingerprint, hpipeline, -⟩ := hencodes
        unfold Store.persist
        rw [hpipeline]
        dsimp only
        rw [if_pos (show s.disk.base.isSome ∧ s.index.artifactEnvelope.isSome from htrusted),
          appendJournalV2, if_pos hpending]
        exact ite_self _
      rw [hpersist'] at hpersist
      cases (Prod.mk.inj hpersist).2
    · exact (h.synced hcodec hsha256 htrusted hencodes hpending (hsynced htrusted hfault)).dropSuperseded
  | appended journal sequence htrusted hencodes =>
    obtain ⟨happended, hreload⟩ := h.append hcodec hsha256 htrusted hencodes
    have hsame : EmbeddingIndex.get { s.index with
        pendingDeltas := []
        journalSequence := sequence
        journalValidBytes := none } = s.index.get := EmbeddingIndex.get_congr rfl rfl rfl
    exact ⟨happended, fun _ => ⟨hsame, hreload.trans hsame.symm⟩⟩
  | saved file e hsaves =>
    obtain ⟨huntrusted, hpending⟩ := h.of_saves hsaves
    obtain ⟨-, -, pipeline, -, hsave⟩ := hsaves
    refine ⟨h.withDisk huntrusted hpending ?_ fun _ => id, fun hok => by cases hok⟩
    intro file' hfile'
    obtain rfl := Option.some.inj hfile'
    exact (saveBinaryV2_eq_ok hsave).intact
  | retired file e hsaves =>
    obtain ⟨huntrusted, hpending⟩ := h.of_saves hsaves
    obtain ⟨-, -, pipeline, -, hsave⟩ := hsaves
    refine ⟨h.withDisk huntrusted hpending ?_ fun bytes hbytes => (by cases hbytes),
      fun hok => by cases hok⟩
    intro file' hfile'
    obtain rfl := Option.some.inj hfile'
    exact (saveBinaryV2_eq_ok hsave).intact
  | adopted file loaded e hsaves hload hfirst hfault =>
    have hnone := hretired hsaves.2.1 hfirst hfault
    have hinv := (h.checkpoint hsaves hload).1
    rw [← hnone] at hinv
    exact ⟨hinv, fun hok => by cases hok⟩
  | checkpointed file loaded r hsaves hload =>
    obtain ⟨hinv, hlive, hreload⟩ := h.checkpoint hsaves hload
    refine ⟨hinv, fun _ => ⟨hlive, ?_⟩⟩
    rw [hreload]

end Embedding
end NestWeaver
