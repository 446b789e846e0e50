import NestWeaver.Store.Embedding.JournalFaithful

/-!
# Runs of the embedding journal

Persisting succeeds when no file operation fails, what is appended fits a record, and what is written
as a base can be read again (`Store.Inv.persist_isOk`).  So in a run in which no vector of another
pipeline is taken over a trusted base, the files are faithful and persisting makes progress
(`journal_of_careful`).
-/

set_option linter.all false

namespace NestWeaver
namespace Embedding

open Transition

variable {F : Type*} {codec : JournalCodec F} {sha256 : EmbeddingPipelineV2 → String}
  {identity : PublicationIdentity} {finite : F → Prop} {s t : Store F}

/-! ## Bases that can be read -/

lemma length_le_uidTableBytes {rows : List (String × List F)} (h : ∀ row ∈ rows, row.1 ≠ "") :
    rows.length ≤ uidTableBytes rows / 3 := by
  have hbytes : 3 * rows.length ≤ uidTableBytes rows := by
    induction rows with
    | nil => exact Nat.zero_le _
    | cons row rows ih =>
      rw [List.forall_mem_cons] at h
      have hrest := ih h.2
      have hrow : row.1.utf8ByteSize ≠ 0 := mt String.utf8ByteSize_eq_zero_iff.mp h.1
      rw [uidTableBytes, List.foldr_cons, ← uidTableBytes, List.length_cons]
      omega
  omega

/-- A base that was written of named vectors of the dimension of its pipeline is read again. -/
lemma loadBinaryV2_of_saves {index : EmbeddingIndex F} {pipeline : EmbeddingPipelineV2}
    {file : BaseFile F} (hsaves : Saves sha256 index identity pipeline file) {fingerprint : String}
    (hfingerprint : pipeline.fingerprint sha256 = .ok fingerprint)
    (hdimension : index.dimension = some pipeline.producedDimension)
    (hpositive : pipeline.producedDimension ≠ 0)
    (hnamed : ∀ row ∈ index.snapshotEntries, row.1 ≠ "") :
    ∃ loaded, loadBinaryV2 sha256 file = .ok loaded := by
  have hcount := length_le_uidTableBytes hnamed
  have hnodup := index.nodup_snapshotEntries
  rw [← hsaves.rows] at hcount hnodup
  refine ⟨file.mapped fingerprint hnodup, ?_⟩
  have hbytes : file.rows.length * pipeline.producedDimension * 4 =
      file.rows.length * (pipeline.producedDimension * 4) := Nat.mul_assoc ..
  have hrow : pipeline.producedDimension * 4 ≠ 0 := by omega
  rw [loadBinaryV2]
  simp only [hsaves.envelope, hdimension, Option.getD_some, ← hsaves.rows, hfingerprint, hbytes]
  simp only [Nat.mul_mod_left, Nat.mul_div_cancel _ (Nat.pos_of_ne_zero hrow), hrow, hnodup,
    Nat.not_lt.mpr hcount, ne_eq, not_true_eq_false, if_false, dif_pos]

lemma EmbeddingPipelineV2.producedDimension_ne_zero {pipeline : EmbeddingPipelineV2}
    {fingerprint : String} (h : pipeline.fingerprint sha256 = .ok fingerprint) :
    pipeline.producedDimension ≠ 0 := by
  intro hzero
  rw [EmbeddingPipelineV2.fingerprint, EmbeddingPipelineV2.validate] at h
  split at h
  · cases h
  split at h
  · cases h
  · cases h

/-- A base is written if all that is live fits it. -/
lemma saveBinaryV2_isOk {index : EmbeddingIndex F} {pipeline : EmbeddingPipelineV2}
    {fingerprint : String} (hrequire : index.requireRecordedPipeline sha256 pipeline = .ok fingerprint)
    (hbase : index.base = none) (hdimension : index.dimension = some pipeline.producedDimension)
    (hentries : ∀ entry ∈ index.snapshotEntries,
      entry.1.utf8ByteSize ≤ maxUidBytes ∧ entry.2.length = pipeline.producedDimension) :
    ∃ file, index.saveBinaryV2 sha256 identity pipeline = .ok file := by
  have hcheck : checkEntries (index.dimension.getD 0) index.snapshotEntries = .ok () := by
    rw [hdimension]
    exact checkEntries_eq_ok.mpr hentries
  have hmatches : ¬(index.snapshotEntries ≠ [] ∧
      index.dimension.getD 0 ≠ pipeline.producedDimension) := by
    rw [hdimension]
    exact fun h => h.2 rfl
  rw [EmbeddingIndex.saveBinaryV2, hrequire, hbase]
  dsimp only
  rw [if_neg (by simp), if_neg hmatches]
  split
  · rename_i e herror
    cases herror.symm.trans hcheck
  · exact ⟨_, rfl⟩

lemma Recorded.requireRecordedPipeline {index : EmbeddingIndex F} (h : Recorded sha256 index)
    {pipeline : EmbeddingPipelineV2} (hpipeline : index.recordedPipeline = some pipeline) :
    ∃ fingerprint, index.requireRecordedPipeline sha256 pipeline = .ok fingerprint ∧
      pipeline.fingerprint sha256 = .ok fingerprint := by
  obtain ⟨-, hnone⟩ | ⟨pipeline', fingerprint, hr, hpipeline', hfingerprint⟩ := h
  · cases hnone.symm.trans hpipeline
  · obtain rfl := Option.some.inj (hpipeline.symm.trans hpipeline')
    refine ⟨fingerprint, ?_, hfingerprint⟩
    rw [EmbeddingIndex.requireRecordedPipeline, hfingerprint, hr]
    exact if_pos rfl

/-! ## Progress -/

/-- The pending changes fit their records, at the sequence numbers they get. -/
def Store.RecordsFit (codec : JournalCodec F) (identity : PublicationIdentity) (s : Store F) : Prop :=
  ∀ fingerprint ∈ s.index.recordedPipelineFingerprint,
    ∀ delta ∈ (Delta.unsuperseded s.index.pendingDeltas).2, ∀ bound ∈ delta.bind s.index.get,
      ∀ sequence ≤ s.index.journalSequence + s.index.pendingDeltas.length,
        (codec.recordBytes (EmbeddingJournalPayload.seal codec
          ⟨sequence, identity, fingerprint, bound⟩)).length ≤ maxRecordBytes

/-- What a step that persists relies on.  An append may fail after it was made only if the next one cuts
it off, and a base is written only of vectors that can be read again. -/
structure Store.Persistable (codec : JournalCodec F) (identity : PublicationIdentity)
    (adoptFirst : Bool) (fault : Option Fault) (s : Store F) : Prop where
  synced : s.trusted → fault = some .syncJournal → s.index.journalValidBytes.isSome = true
  fits : s.trusted → s.RecordsFit codec identity
  retired : ¬s.trusted → adoptFirst = true → fault = some .removeJournal → s.disk.journal = none
  inhabited : ¬s.trusted → s.index.isEmpty = true → s.index.pendingDeltas = []
  short : ¬s.trusted → ∀ uid, (s.index.get uid).isSome → uid.utf8ByteSize ≤ maxUidBytes

lemma Store.Inv.append_isOk (h : s.Inv codec sha256 identity finite) {pipeline : EmbeddingPipelineV2}
    (hpipeline : s.index.recordedPipeline = some pipeline) (htrusted : s.trusted)
    (hfits : s.RecordsFit codec identity) :
    ∃ n, (appendJournalV2 codec sha256 identity none s pipeline).2 = .ok n := by
  obtain huntrusted | ⟨file, loaded, replayed, hbase⟩ := h.foundation
  · have hsome := htrusted.2
    rw [huntrusted.envelope] at hsome
    cases hsome
  rw [appendJournalV2]
  by_cases hpending : s.index.pendingDeltas = []
  · rw [if_pos hpending]
    exact ⟨0, rfl⟩
  rw [if_neg hpending]
  obtain ⟨fingerprint, hrequire, -⟩ := h.recorded.requireRecordedPipeline hpipeline
  obtain ⟨-, hrecorded⟩ := requireRecordedPipeline_eq_ok hrequire
  have hmagic : embeddingJournalMagic <+: s.disk.journal.getD embeddingJournalMagic := by
    cases hjournal : s.disk.journal with
    | none => exact List.prefix_rfl
    | some bytes =>
      obtain ⟨bodies, hjournaled⟩ := h.journal bytes hjournal
      rw [Option.getD_some, hjournaled.bytes]
      exact List.prefix_append ..
  have hlength := (Delta.unsuperseded_sublist s.index.pendingDeltas).length_le
  obtain ⟨journal, sequence, hencode⟩ := encode_isOk (fun _ => hbase.tracks.bind_isSome)
    (hfits fingerprint hrecorded)
    (s.index.journalValidBytes.elim (s.disk.journal.getD embeddingJournalMagic)
      (s.disk.journal.getD embeddingJournalMagic).take) s.index.journalSequence (by omega)
  refine ⟨(Delta.unsuperseded s.index.pendingDeltas).2.length, ?_⟩
  rw [hrequire]
  dsimp only
  rw [if_neg (by simp), if_neg (not_not_intro hmagic), hencode]
  rfl

/-- **Progress.**  Without a fault, persisting succeeds. -/
lemma Store.Inv.persist_isOk (h : s.Inv codec sha256 identity finite) {adoptFirst : Bool}
    (hpersistable : s.Persistable codec identity adoptFirst none)
    (hpipeline : s.index.recordedPipeline.isSome = true) :
    (s.persist codec sha256 identity none adoptFirst).2 = .ok () := by
  obtain ⟨pipeline, hpipeline⟩ := Option.isSome_iff_exists.mp hpipeline
  rw [Store.persist]
  by_cases hidle : s.index.isEmpty = true ∧ s.index.pendingDeltas = []
  · rw [if_pos hidle]
  rw [if_neg hidle, hpipeline]
  dsimp only
  by_cases htrusted : s.disk.base.isSome = true ∧ s.index.artifactEnvelope.isSome = true
  · obtain ⟨n, hn⟩ := h.append_isOk hpipeline htrusted (hpersistable.fits htrusted)
    rw [if_pos htrusted, hn]
    rfl
  rw [if_neg htrusted]
  have hnonempty : ¬s.index.isEmpty = true :=
    fun hempty => hidle ⟨hempty, hpersistable.inhabited htrusted hempty⟩
  obtain huntrusted | ⟨file, loaded, replayed, hbase⟩ := h.foundation
  · obtain ⟨fingerprint, hrequire, hfingerprint⟩ := h.recorded.requireRecordedPipeline hpipeline
    -- everything that is live is in the overlay
    have hlive : ∀ uid vector, s.index.get uid = some vector →
        uid ≠ "" ∧ vector.length = pipeline.producedDimension := by
      intro uid vector hget
      obtain hoverlay | ⟨-, -, base, hbase, -⟩ := EmbeddingIndex.get_eq_some hget
      · obtain ⟨hgood, old, hold, hsize⟩ := h.overlay uid vector hoverlay
        obtain rfl := Option.some.inj (hpipeline.symm.trans hold)
        exact ⟨hgood.nonempty, hsize⟩
      · cases huntrusted.base.symm.trans hbase
    have hdimension : s.index.dimension = some pipeline.producedDimension := by
      rw [EmbeddingIndex.dimension]
      cases hentries : s.index.embeddings.entries with
      | nil =>
        refine absurd (EmbeddingIndex.isEmpty_iff.mpr ⟨hentries, fun base hbase => ?_⟩) hnonempty
        cases huntrusted.base.symm.trans hbase
      | cons entry entries =>
        have hlookup : s.index.embeddings.lookup entry.1 = some entry.2 := by
          rw [← Option.mem_def, AList.mem_lookup_iff, hentries]
          exact List.mem_cons_self
        exact congrArg some (hlive entry.1 entry.2 (EmbeddingIndex.get_of_mem hlookup)).2
    have hmem : ∀ entry ∈ s.index.snapshotEntries, s.index.get entry.1 = some entry.2 :=
      fun entry hentry => (EmbeddingIndex.mem_snapshotEntries h.sound.layered.intact).mp hentry
    have hshort : ∀ entry ∈ s.index.snapshotEntries, entry.1.utf8ByteSize ≤ maxUidBytes := by
      intro entry hentry
      refine hpersistable.short htrusted entry.1 ?_
      rw [hmem entry hentry]
      rfl
    obtain ⟨file, hsave⟩ : ∃ file, s.index.saveBinaryV2 sha256 identity pipeline = .ok file :=
      saveBinaryV2_isOk hrequire huntrusted.base hdimension fun entry hentry =>
        ⟨hshort entry hentry, (hlive entry.1 entry.2 (hmem entry hentry)).2⟩
    obtain ⟨loaded, hload⟩ := loadBinaryV2_of_saves (saveBinaryV2_eq_ok hsave) hfingerprint hdimension
      (EmbeddingPipelineV2.producedDimension_ne_zero hfingerprint)
      fun entry hentry => (hlive entry.1 entry.2 (hmem entry hentry)).1
    rw [saveBase, hsave]
    cases adoptFirst <;> simp [andThen, adoptBinaryV2, retireJournal, hload]
  · refine absurd ⟨?_, hbase.envelope⟩ htrusted
    rw [hbase.onDisk]
    rfl

/-! ## Runs -/

/-- Vectors have a UID and finite components. -/
def StoreOp.Valid (finite : F → Prop) : StoreOp F → Prop
  | .index (.addWithPipeline uid vector _ _) => Good finite uid vector
  | _ => True

/-- No vector of another pipeline is taken over a trusted base, and persisting can rely on what it
does rely on. -/
def Store.Careful (codec : JournalCodec F) (sha256 : EmbeddingPipelineV2 → String)
    (identity : PublicationIdentity) (s : Store F) : StoreOp F → Prop
  | .index (.addWithPipeline _ _ pipeline _) => ¬s.index.AdoptsOver sha256 pipeline
  | .persist adoptFirst fault => s.Persistable codec identity adoptFirst fault
  | _ => True

lemma Store.Inv.apply (h : s.Inv codec sha256 identity finite) (hcodec : codec.Faithful finite)
    (hsha256 : ∀ p q, sha256 p = sha256 q → p.producedDimension = q.producedDimension)
    {op : StoreOp F} (hvalid : op.Valid finite) (hcareful : s.Careful codec sha256 identity op) :
    (s.apply codec sha256 identity op).Inv codec sha256 identity finite := by
  cases op with
  | crash => exact inv_opened h.sound.intact h.journal
  | persist adoptFirst fault =>
    have hpersistable : s.Persistable codec identity adoptFirst fault := hcareful
    exact (h.persist hcodec hsha256 hpersistable.synced hpersistable.retired rfl).1
  | index op =>
    cases op with
    | addWithPipeline uid vector pipeline force =>
      exact h.addWithPipeline hsha256 force hvalid hcareful
    | resetForceGuard =>
      refine ⟨⟨h.sound.layered.congr rfl rfl rfl, h.sound.intact⟩, h.journal, h.recorded, h.overlay, ?_⟩
      obtain huntrusted | ⟨file, loaded, replayed, hbase⟩ := h.foundation
      · exact .inl ⟨huntrusted.envelope, huntrusted.base, huntrusted.idle⟩
      · exact .inr ⟨file, loaded, replayed, hbase.index rfl rfl rfl rfl rfl id hbase.tracks
          hbase.upserts⟩
    | tombstoneUids deadUids => exact h.foldl (fun s uid h => h.tombstoneUid uid) deadUids
    | retainUids liveUids => exact h.foldl (fun s uid h => h.removeUid uid) _

/-- **The embedding journal.**  In every run from an empty index or a base without a journal, the
tombstones are rows of the base that the overlay does not shadow, and the occupancy counts the live
UIDs.  In a run all of whose steps are careful, a careful step that persists and succeeds leaves on disk
what is live; and if no file operation fails and a pipeline is recorded, it does succeed. -/
theorem journal_of_careful (hcodec : codec.Faithful finite)
    (hsha256 : ∀ p q, sha256 p = sha256 q → p.producedDimension = q.producedDimension)
    {disk : Disk F} (hintact : ∀ file, disk.base = some file → file.intact = true)
    (hjournal : disk.journal = none) {ops : List (StoreOp F)} (hvalid : ∀ op ∈ ops, op.Valid finite)
    (hrun : run (Store.step codec sha256 identity) (.opened codec sha256 identity disk) ops = some t) :
    ((∀ uid ∈ t.index.deletedBaseUids, t.index.inBase uid ∧ uid ∉ t.index.embeddings) ∧
      t.index.allUids.Nodup ∧ (∀ uid, uid ∈ t.index.allUids ↔ (t.index.get uid).isSome) ∧
      t.index.occupancy.1 = t.index.allUids.length) ∧
    (Along (Store.step codec sha256 identity) (Store.Careful codec sha256 identity)
        (.opened codec sha256 identity disk) ops →
      ∀ adoptFirst fault t' r, t.Persistable codec identity adoptFirst fault →
        t.persist codec sha256 identity fault adoptFirst = (t', r) →
        (r = .ok () → ∀ uid, t'.index.get uid = t.index.get uid ∧
          (reload codec sha256 identity t'.disk).get uid = t'.index.get uid) ∧
        (fault = none → t.index.recordedPipeline.isSome = true → r = .ok ())) := by
  have hopened : (Store.opened codec sha256 identity disk).Inv codec sha256 identity finite := by
    refine inv_opened hintact fun bytes hbytes => ?_
    cases hjournal.symm.trans hbytes
  constructor
  · have hsound : t.Sound := by
      refine (steps_of_run hrun).invariant (P := Store.Sound) hopened.sound ?_
      intro u op u' hu hstep
      obtain rfl := Option.some.inj hstep
      exact hu.apply op
    refine ⟨fun uid huid => ⟨hsound.layered.inBase uid huid, hsound.layered.hidden uid huid⟩,
      EmbeddingIndex.nodup_allUids, fun uid => hsound.layered.mem_allUids, hsound.layered.occupancy⟩
  · intro hcareful adoptFirst fault t' r hpersistable hpersist
    have hinv : t.Inv codec sha256 identity finite := by
      refine hcareful.invariant hrun hopened ?_
      intro u u' op hop hu hok hstep
      obtain rfl := Option.some.inj hstep
      exact hu.apply hcodec hsha256 (hvalid op hop) hok
    obtain ⟨-, hfaithful⟩ := hinv.persist hcodec hsha256 hpersistable.synced hpersistable.retired
      hpersist
    refine ⟨fun hok uid => ?_, ?_⟩
    · obtain ⟨hlive, hdisk⟩ := hfaithful hok
      rw [hdisk, hlive]
      exact ⟨rfl, rfl⟩
    · rintro rfl hpipeline
      have hok := hinv.persist_isOk hpersistable hpipeline
      rw [hpersist] at hok
      exact hok

/-! ## Runs over a plain codec -/

/-- Each number is a row of sixteens and ones before a zero. -/
def tally (tokens : List ℕ) : List UInt8 :=
  tokens.flatMap fun n => List.replicate (n / 16) 16 ++ List.replicate (n % 16) 1 ++ [0]

def untally : List UInt8 → ℕ → List ℕ
  | [], _ => []
  | byte :: bytes, n => if byte = 0 then n :: untally bytes 0 else untally bytes (n + byte.toNat)

lemma untally_replicate {byte : UInt8} (hbyte : byte ≠ 0) (k n : ℕ) (rest : List UInt8) :
    untally (List.replicate k byte ++ rest) n = untally rest (n + k * byte.toNat) := by
  induction k generalizing n with
  | zero => simp
  | succ k ih =>
    rw [List.replicate_succ, List.cons_append, untally, if_neg hbyte, ih, Nat.add_assoc, Nat.succ_mul,
      Nat.add_comm byte.toNat]

lemma untally_tally (tokens : List ℕ) : untally (tally tokens) 0 = tokens := by
  induction tokens with
  | nil => rfl
  | cons n tokens ih =>
    have htally : tally (n :: tokens) =
        List.replicate (n / 16) 16 ++ (List.replicate (n % 16) 1 ++ 0 :: tally tokens) := by
      simp [tally]
    have hsum : 0 + n / 16 * UInt8.toNat 16 + n % 16 * UInt8.toNat 1 = n := by
      have hsixteen : UInt8.toNat 16 = 16 := rfl
      have hone : UInt8.toNat 1 = 1 := rfl
      rw [hsixteen, hone]
      omega
    rw [htally, untally_replicate (by decide), untally_replicate (by decide), hsum, untally,
      if_pos rfl, ih]

def stringTokens (s : String) : List ℕ := s.toList.length :: s.toList.map Char.toNat

def takeString : List ℕ → Option (String × List ℕ)
  | [] => none
  | n :: tokens => some (String.ofList ((tokens.take n).map Char.ofNat), tokens.drop n)

lemma takeString_append (s : String) (rest : List ℕ) :
    takeString (stringTokens s ++ rest) = some (s, rest) := by
  have hlength : (s.toList.map Char.toNat).length = s.toList.length := List.length_map _
  have hchars : (s.toList.map Char.toNat).map Char.ofNat = s.toList := by
    rw [List.map_map]
    exact (List.map_congr_left fun c _ => Char.ofNat_toNat c).trans (List.map_id _)
  rw [stringTokens, List.cons_append, takeString, ← hlength, List.take_left, List.drop_left, hchars,
    String.ofList_toList]

def deltaTokens : Delta String (List ℕ) → List ℕ
  | .clear => [0]
  | .upsert uid vector => 1 :: (stringTokens uid ++ vector)
  | .delete uid => 2 :: stringTokens uid

def takeDelta : List ℕ → Option (Delta String (List ℕ))
  | [0] => some .clear
  | 1 :: tokens => (takeString tokens).map fun (uid, vector) => .upsert uid vector
  | 2 :: tokens => (takeString tokens).map fun (uid, _) => .delete uid
  | _ => none

lemma takeDelta_deltaTokens (delta : Delta String (List ℕ)) :
    takeDelta (deltaTokens delta) = some delta := by
  cases delta with
  | clear => rfl
  | upsert uid vector =>
    rw [deltaTokens, takeDelta, takeString_append]
    rfl
  | delete uid =>
    have htokens := takeString_append uid []
    rw [List.append_nil] at htokens
    rw [deltaTokens, takeDelta, htokens]
    rfl

def payloadTokens (payload : EmbeddingJournalPayload ℕ) : List ℕ :=
  payload.sequence :: (stringTokens payload.identity.brainUuid ++
    (stringTokens payload.identity.publicationUuid ++ (stringTokens payload.pipelineFingerprint ++
      deltaTokens payload.delta)))

def takePayload : List ℕ → Option (EmbeddingJournalPayload ℕ)
  | [] => none
  | sequence :: tokens => do
    let (brainUuid, tokens) ← takeString tokens
    let (publicationUuid, tokens) ← takeString tokens
    let (pipelineFingerprint, tokens) ← takeString tokens
    let delta ← takeDelta tokens
    return ⟨sequence, ⟨brainUuid, publicationUuid⟩, pipelineFingerprint, delta⟩

lemma takePayload_payloadTokens (payload : EmbeddingJournalPayload ℕ) :
    takePayload (payloadTokens payload) = some payload := by
  simp [payloadTokens, takePayload, takeString_append, takeDelta_deltaTokens]

/-- Numbers in tallies, and the length as checksum. -/
def plainCodec : JournalCodec ℕ where
  payloadBytes payload := tally (payloadTokens payload)
  blake3 bytes := toString bytes.length
  recordBytes record := tally (stringTokens record.checksum ++ payloadTokens record.payload)
  parseRecord bytes := do
    let (checksum, tokens) ← takeString (untally bytes 0)
    let payload ← takePayload tokens
    return ⟨payload, checksum⟩

lemma plainCodec_faithful : plainCodec.Faithful fun _ => True := by
  intro record _
  simp [plainCodec, untally_tally, takeString_append, takePayload_payloadTokens]

/-- The dimension in ones, and the model. -/
def plainDigest (pipeline : EmbeddingPipelineV2) : String :=
  String.ofList (List.replicate pipeline.producedDimension '1' ++ ' ' :: pipeline.modelId.toList)

lemma plainDigest_dimension (p q : EmbeddingPipelineV2) (h : plainDigest p = plainDigest q) :
    p.producedDimension = q.producedDimension := by
  have hlist := String.ofList_injective h
  have hones := congrArg (fun l => (l.takeWhile (· = '1')).length) hlist
  simpa using hones

def brain : PublicationIdentity := ⟨"brain", "publication"⟩

def firstPipeline : EmbeddingPipelineV2 := .external "provider" "first" 1

def secondPipeline : EmbeddingPipelineV2 := .external "provider" "second" 1

/-- A vector is added and persisted, and another one is added. -/
def twoVectors : List (StoreOp ℕ) :=
  [.index (.addWithPipeline "a" [1] firstPipeline false), .persist false none,
    .index (.addWithPipeline "b" [2] firstPipeline false)]

def Store.after (disk : Disk ℕ) (ops : List (StoreOp ℕ)) : Store ℕ :=
  ops.foldl (Store.apply plainCodec plainDigest brain) (.opened plainCodec plainDigest brain disk)

/-- Persisting the second vector appends it to the journal, and it is read again. -/
theorem journal_of_careful_twoVectors :
    let s := Store.after ⟨none, none⟩ twoVectors
    let persisted := s.persist plainCodec plainDigest brain none false
    s.trusted ∧ persisted.2 = .ok () ∧
      (reload plainCodec plainDigest brain persisted.1.disk).get "b" = some [2] ∧
      s.index.occupancy.1 = s.index.allUids.length := by
  intro s persisted
  have htrusted : s.trusted := by decide +kernel
  have hvalid : ∀ op ∈ twoVectors, op.Valid fun _ => True := by
    simp [twoVectors, StoreOp.Valid, Good.mk]
  have hcareful : Along (Store.step plainCodec plainDigest brain)
      (Store.Careful plainCodec plainDigest brain)
      (.opened plainCodec plainDigest brain ⟨none, none⟩) twoVectors := by
    refine .cons (fun h => Bool.false_ne_true h.1) fun u hu => ?_
    obtain rfl := Option.some.inj hu
    refine .cons ?_ fun u hu => ?_
    · refine ⟨fun _ h => (by cases h), fun h => absurd h ?_, fun _ h => (by cases h),
        fun _ h => absurd h ?_, fun _ uid huid => ?_⟩
      · decide +kernel
      · decide +kernel
      · obtain ⟨vector, hvector⟩ := Option.isSome_iff_exists.mp huid
        obtain hoverlay | ⟨-, -, base, hbase, -⟩ := EmbeddingIndex.get_eq_some hvector
        · have hinsert : (AList.insert "a" [1] (∅ : AList fun _ : String => List ℕ)).lookup uid =
              some vector := hoverlay
          obtain ⟨rfl, -⟩ | hold := lookup_of_insert hinsert
          · decide
          · cases hold
        · cases hbase
    obtain rfl := Option.some.inj hu
    refine .cons (fun h => ?_) fun u hu => along_nil
    exact absurd h.2.1 (by decide +kernel)
  obtain ⟨⟨-, -, -, hoccupancy⟩, hpersist⟩ := journal_of_careful plainCodec_faithful
    plainDigest_dimension (fun _ hfile => by cases hfile) rfl hvalid (t := s) rfl
  have hpersistable : s.Persistable plainCodec brain false none := by
    refine ⟨fun _ hfault => (by cases hfault), fun _ => ?_, fun h => absurd htrusted h, fun h => absurd htrusted h,
      fun h => absurd htrusted h⟩
    unfold Store.RecordsFit
    decide +kernel
  obtain ⟨hfaithful, hprogress⟩ := hpersist hcareful false none persisted.1 persisted.2 hpersistable rfl
  have hok := hprogress rfl (by decide +kernel)
  obtain ⟨hlive, hdisk⟩ := hfaithful hok "b"
  refine ⟨htrusted, hok, ?_, hoccupancy⟩
  rw [hdisk, hlive]
  decide +kernel

/-- A base of one vector. -/
def oneVector : BaseFile ℕ where
  envelope :=
    { schemaVersion := 2
      identity := brain
      pipeline := firstPipeline
      count := 1
      dimension := 1
      uidTableBytes := 3
      vectorBytes := 4 }
  rows := [("a", [1])]
  intact := true
  rows_length := by simp

/-- All vectors of the base are deleted, and one of another pipeline is added. -/
def newPipeline : List (StoreOp ℕ) :=
  [.index (.tombstoneUids ["a"]), .index (.addWithPipeline "b" [2] secondPipeline false)]

/-- The only vector is deleted before it was persisted. -/
def addedAndDeleted : List (StoreOp ℕ) :=
  [.index (.addWithPipeline "a" [1] firstPipeline false), .index (.tombstoneUids ["a"])]

/-- The journal of another pipeline is lost, and an index that became empty cannot be persisted. -/
theorem newPipeline_lost :
    (¬∀ (codec : JournalCodec ℕ) (sha256 : EmbeddingPipelineV2 → String)
      (identity : PublicationIdentity) (disk : Disk ℕ) (ops : List (StoreOp ℕ)) (t : Store ℕ),
      codec.Faithful (fun _ => True) →
      (∀ p q, sha256 p = sha256 q → p.producedDimension = q.producedDimension) →
      (∀ file, disk.base = some file → file.intact = true) → disk.journal = none →
      (∀ op ∈ ops, op.Valid fun _ => True) →
      run (Store.step codec sha256 identity) (.opened codec sha256 identity disk) ops = some t →
      ∀ adoptFirst t', t.persist codec sha256 identity none adoptFirst = (t', .ok ()) →
        ∀ uid, (reload codec sha256 identity t'.disk).get uid = t'.index.get uid) ∧
    ¬∀ (codec : JournalCodec ℕ) (sha256 : EmbeddingPipelineV2 → String)
      (identity : PublicationIdentity) (disk : Disk ℕ) (ops : List (StoreOp ℕ)) (t : Store ℕ),
      codec.Faithful (fun _ => True) →
      (∀ p q, sha256 p = sha256 q → p.producedDimension = q.producedDimension) →
      (∀ file, disk.base = some file → file.intact = true) → disk.journal = none →
      (∀ op ∈ ops, op.Valid fun _ => True) →
      run (Store.step codec sha256 identity) (.opened codec sha256 identity disk) ops = some t →
      t.index.recordedPipeline.isSome = true →
      ∀ adoptFirst, (t.persist codec sha256 identity none adoptFirst).2 = .ok () := by
  constructor
  · intro h
    have hrun :
        let persisted :=
          (Store.after ⟨some oneVector, none⟩ newPipeline).persist plainCodec plainDigest brain none false
        persisted.2 = .ok () ∧ (reload plainCodec plainDigest brain persisted.1.disk).get "b" = none ∧
          persisted.1.index.get "b" = some [2] := by decide +kernel
    set s := Store.after ⟨some oneVector, none⟩ newPipeline with hs
    obtain ⟨hok, hlost, hlive⟩ := hrun
    have hintact : ∀ file, some oneVector = some file → file.intact = true := by
      intro file hfile
      obtain rfl := Option.some.inj hfile
      rfl
    have hvalid : ∀ op ∈ newPipeline, op.Valid fun _ => True := by
      simp [newPipeline, StoreOp.Valid, Good.mk]
    have hread := h plainCodec plainDigest brain ⟨some oneVector, none⟩ newPipeline s
      plainCodec_faithful plainDigest_dimension hintact rfl hvalid rfl false
      (s.persist plainCodec plainDigest brain none false).1 (Prod.ext rfl hok) "b"
    rw [hlost, hlive] at hread
    cases hread
  · intro h
    have hvalid : ∀ op ∈ addedAndDeleted, op.Valid fun _ => True := by
      simp [addedAndDeleted, StoreOp.Valid, Good.mk]
    have hok := h plainCodec plainDigest brain ⟨none, none⟩ addedAndDeleted
      (.after ⟨none, none⟩ addedAndDeleted) plainCodec_faithful plainDigest_dimension
      (fun _ hfile => by cases hfile) rfl hvalid rfl (by decide +kernel) false
    revert hok
    decide +kernel

end Embedding
end NestWeaver
