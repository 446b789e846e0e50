import NestWeaver.Store.Embedding.Artifact
import NestWeaver.Store.Embedding.JournalRuns

/-!
# The round trip of the embedding artifact

`save_binary_v2` of `crates/nestweaver-store/src/search.rs` writes the live vectors of an index as an artifact,
and `load_binary_v2` maps it.  What is mapped has the vectors of the index, in the space it was saved with.

An index that has no live vector is written too, with the dimension it happens to have, and then the artifact is
not read again unless that is the one of the pipeline (`saveBinaryV2Bytes_roundTrips_iff`).

A component is the 32 bits of a float.  JSON and the digests are parameters.
-/

set_option linter.all false

namespace NestWeaver
namespace Embedding

open Guarded Guarded.Run LittleEndian

/-! ## Writing -/

/-- What the writer and the reader depend on. -/
structure ArtifactCodec extends ArtifactReader where
  encode : ArtifactEnvelope → List UInt8
  blake3 : List UInt8 → String
  producerVersion : String

/-- The bytes of a UID. -/
def uidBytes (uid : String) : List UInt8 := uid.toByteArray.data.toList

def uidTable (entries : List (String × List UInt32)) : List UInt8 :=
  entries.flatMap fun entry => toLe 2 entry.1.utf8ByteSize ++ uidBytes entry.1

/-- `write_to`. -/
def vectorBytes (vector : List UInt32) : List UInt8 := vector.flatMap fun value => toLe 4 value.toNat

def vectorRegion (entries : List (String × List UInt32)) : List UInt8 :=
  entries.flatMap fun entry => vectorBytes entry.2

/-- The file that is written. -/
def artifactBytes (encoded : List UInt8) (entries : List (String × List UInt32)) : List UInt8 :=
  artifactMagic ++ toLe 4 2 ++ toLe 8 encoded.length ++ encoded ++ (uidTable entries ++ vectorRegion entries)

/-- The envelope and the file that is written, once the checks are passed.  The lengths of what is in memory have
64 bits. -/
def EmbeddingIndex.saveBinaryV2Bytes (codec : ArtifactCodec) (index : EmbeddingIndex UInt32)
    (identity : PublicationIdentity) (sourceGraphGeneration : ℕ) (pipeline : EmbeddingPipelineV2) :
    Except String (ArtifactEnvelope × List UInt8) :=
  match index.saveBinaryV2 codec.sha256 identity pipeline with
  | .error e => .error e
  | .ok file =>
    if h : file.rows.length * file.envelope.dimension * 4 < 2 ^ 64 then
      let envelope : ArtifactEnvelope := {
        schemaVersion := 2
        identity
        sourceGraphGeneration
        producerVersion := codec.producerVersion
        pipeline
        count := file.rows.length % 2 ^ 64
        dimension := file.envelope.dimension % 2 ^ 32
        uidTableBytes := (uidTable file.rows).length % 2 ^ 64
        vectorBytes := file.rows.length * file.envelope.dimension * 4
        payloadBlake3 := codec.blake3 (uidTable file.rows ++ vectorRegion file.rows)
        count_lt := Nat.mod_lt _ (by decide)
        dimension_lt := Nat.mod_lt _ (by decide)
        uidTableBytes_lt := Nat.mod_lt _ (by decide)
        vectorBytes_lt := h }
      .ok (envelope, artifactBytes (codec.encode envelope) file.rows)
    else .error "embedding vector payload size overflow"

/-! ## Reading vectors -/

section Code

variable (mode : Overflow)

/-- `get` on an index that was just loaded: the overlay is empty and nothing is hidden. -/
def LoadedIndex.get (blake3 : List UInt8 → String) (index : LoadedIndex) (uid : String) :
    Run (Option (List UInt32)) := do
  let payload ← slice index.base.bytes index.base.payloadRange.1 index.base.payloadRange.2
  if blake3 payload = index.base.expectedPayloadBlake3 then
    match index.base.rows.find? (·.uid = uid) with
    | none => pure none
    | some row => do
      let vector ← index.base.vectorAt mode row
      pure (some vector)
  else pure none

end Code

/-! ## What is asked for -/

/-- The file is read, and what is read is what was saved: the live vectors, the space and the envelope. -/
def RoundTrips (codec : ArtifactCodec) (index : EmbeddingIndex UInt32) (pipeline : EmbeddingPipelineV2)
    (envelope : ArtifactEnvelope) (bytes : Bytes) : Prop :=
  ∀ mode, ∃ loaded, (loadBinaryV2Bytes mode codec.toArtifactReader bytes).outcome = .ok loaded ∧
    (∀ uid, (loaded.get mode codec.blake3 uid).outcome = .ok (index.get uid)) ∧
    loaded.recordedPipeline = pipeline ∧
    some loaded.recordedPipelineFingerprint = index.recordedPipelineFingerprint ∧
    loaded.artifactEnvelope = envelope

/-! ## Bytes -/

variable {codec : ArtifactCodec} {mode : Overflow} {data : List UInt8} {entries : List (String × List UInt32)}

@[simp] lemma length_uidBytes (uid : String) : (uidBytes uid).length = uid.utf8ByteSize := by
  rw [uidBytes, Array.length_toList]
  rfl

lemma decodeUtf8_uidBytes (uid : String) : decodeUtf8 (uidBytes uid) = some uid := by
  have hbytes : (uidBytes uid).toByteArray = uid.toByteArray := by
    apply ByteArray.ext
    rw [List.data_toByteArray, uidBytes]
  rw [decodeUtf8, hbytes, String.fromUTF8?, dif_pos uid.isValidUTF8]
  rfl

lemma length_uidTable (entries : List (String × List UInt32)) :
    (uidTable entries).length = uidTableBytes entries := by
  induction entries with
  | nil => rfl
  | cons entry entries ih =>
    rw [uidTable, List.flatMap_cons, ← uidTable, uidTableBytes, List.foldr_cons, ← uidTableBytes, ← ih]
    simp only [List.length_append, length_toLe, length_uidBytes]

lemma length_vectorBytes (vector : List UInt32) : (vectorBytes vector).length = vector.length * 4 := by
  induction vector with
  | nil => rfl
  | cons value vector ih =>
    rw [vectorBytes, List.flatMap_cons, ← vectorBytes, List.length_append, length_toLe, ih, List.length_cons]
    omega

lemma length_vectorRegion_of {dimension : ℕ} (h : ∀ entry ∈ entries, entry.2.length = dimension) :
    (vectorRegion entries).length = entries.length * (dimension * 4) := by
  induction entries with
  | nil => simp [vectorRegion]
  | cons entry entries ih =>
    obtain ⟨hentry, hentries⟩ := List.forall_mem_cons.mp h
    rw [vectorRegion, List.flatMap_cons, ← vectorRegion, List.length_append, length_vectorBytes, hentry,
      ih hentries, List.length_cons, Nat.succ_mul, Nat.add_comm]

/-! ## The table of UIDs -/

lemma readUids_outcome {payload back : List UInt8} {uidEnd : ℕ} (hlength : payload.length < 2 ^ 63)
    (entries : List (String × List UInt32)) (hfits : ∀ entry ∈ entries, entry.1.utf8ByteSize ≤ maxUidBytes)
    (front : List UInt8) (fuel : ℕ) (uids : List String)
    (hpayload : payload = front ++ (uidTable entries ++ back))
    (hend : uidEnd = front.length + (uidTable entries).length) (hfuel : (uidTable entries).length < fuel) :
    (readUids mode payload uidEnd fuel front.length uids).outcome = .ok (uids ++ entries.map Prod.fst) := by
  induction entries generalizing front fuel uids with
  | nil =>
    obtain ⟨fuel, rfl⟩ : ∃ n, fuel = n + 1 := ⟨fuel - 1, by omega⟩
    have hdone : ¬front.length < uidEnd := by
      rw [hend]
      exact Nat.lt_irrefl _
    rw [readUids, if_neg hdone, List.map_nil, List.append_nil]
    rfl
  | cons entry entries ih =>
    obtain ⟨hentry, hentries⟩ := List.forall_mem_cons.mp hfits
    obtain ⟨fuel, rfl⟩ : ∃ n, fuel = n + 1 := ⟨fuel - 1, by omega⟩
    have htable : uidTable (entry :: entries) =
        toLe 2 entry.1.utf8ByteSize ++ (uidBytes entry.1 ++ uidTable entries) := by
      rw [uidTable, List.flatMap_cons, ← uidTable, List.append_assoc]
    have htableLength : (uidTable (entry :: entries)).length =
        2 + (entry.1.utf8ByteSize + (uidTable entries).length) := by
      rw [htable]
      simp only [List.length_append, length_toLe, length_uidBytes]
    have hlengths : payload.length = front.length + (2 + (entry.1.utf8ByteSize + (uidTable entries).length) +
        back.length) := by
      rw [hpayload, List.length_append, List.length_append, htableLength]
    have hfirst : payload = front ++
        (toLe 2 entry.1.utf8ByteSize ++ (uidBytes entry.1 ++ uidTable entries ++ back)) := by
      rw [hpayload, htable, List.append_assoc]
    have hsecond : payload = (front ++ toLe 2 entry.1.utf8ByteSize) ++
        (uidBytes entry.1 ++ (uidTable entries ++ back)) := by
      rw [hfirst, List.append_assoc, List.append_assoc]
    have hrest : payload = (front ++ toLe 2 entry.1.utf8ByteSize ++ uidBytes entry.1) ++
        (uidTable entries ++ back) := by
      rw [hsecond, List.append_assoc (front ++ _)]
    have hwidth : (slice payload front.length (front.length + 2)).outcome = .ok (toLe 2 entry.1.utf8ByteSize) :=
      slice_mid hfirst rfl (by rw [length_toLe])
    have hsize : ofLe (toLe 2 entry.1.utf8ByteSize) = entry.1.utf8ByteSize :=
      ofLe_toLe (by rw [maxUidBytes] at hentry; omega)
    have huid : (slice payload (front.length + 2) (front.length + 2 + entry.1.utf8ByteSize)).outcome =
        .ok (uidBytes entry.1) :=
      slice_mid hsecond (by rw [List.length_append, length_toLe]) (by rw [length_uidBytes])
    rw [readUids, if_pos (by omega), add, bind_of_ok (number_outcome (by omega)),
      bind_of_ok (ensure_outcome (by omega)), bind_of_ok hwidth, hsize, add,
      bind_of_ok (number_outcome (by omega)), bind_of_ok (ensure_outcome (by omega)), bind_of_ok huid,
      decodeUtf8_uidBytes, bind_of_ok ofOption_outcome]
    -- the rest of the table is behind this UID
    have hfront : (front ++ toLe 2 entry.1.utf8ByteSize ++ uidBytes entry.1).length =
        front.length + 2 + entry.1.utf8ByteSize := by
      simp only [List.length_append, length_toLe, length_uidBytes]
    have hread := ih hentries (front ++ toLe 2 entry.1.utf8ByteSize ++ uidBytes entry.1) fuel (uids ++ [entry.1])
      hrest (by omega) (by omega)
    rw [hfront] at hread
    rw [hread, List.append_assoc, List.map_cons, List.singleton_append]

/-! ## The rows -/

/-- The row of an entry, with the place of its vector in the file. -/
def Placed (data : List UInt8) (entry : String × List UInt32) (row : EmbeddingBaseRow) : Prop :=
  row.uid = entry.1 ∧
    ∃ front back, data = front ++ (vectorBytes entry.2 ++ back) ∧ row.vectorOffset = front.length

lemma buildRows_outcome {vectorStart dimension : ℕ} {back : List UInt8} (hlength : data.length < 2 ^ 63)
    (entries : List (String × List UInt32)) (hdimension : ∀ entry ∈ entries, entry.2.length = dimension)
    (front : List UInt8) (rows : List EmbeddingBaseRow) (hdata : data = front ++ (vectorRegion entries ++ back))
    (hfront : vectorStart + rows.length * dimension * 4 = front.length)
    (hnodup : (rows.map EmbeddingBaseRow.uid ++ entries.map Prod.fst).Nodup) :
    ∃ added, (buildRows mode vectorStart dimension (entries.map Prod.fst) rows).outcome = .ok (rows ++ added) ∧
      List.Forall₂ (Placed data) entries added := by
  induction entries generalizing front rows with
  | nil =>
    refine ⟨[], ?_, .nil⟩
    rw [List.append_nil]
    rfl
  | cons entry entries ih =>
    obtain ⟨hentry, hentries⟩ := List.forall_mem_cons.mp hdimension
    have hregion : vectorRegion (entry :: entries) = vectorBytes entry.2 ++ vectorRegion entries := by
      rw [vectorRegion, List.flatMap_cons, ← vectorRegion]
    have hfirst : data = front ++ (vectorBytes entry.2 ++ (vectorRegion entries ++ back)) := by
      rw [hdata, hregion, List.append_assoc]
    have hrest : data = (front ++ vectorBytes entry.2) ++ (vectorRegion entries ++ back) := by
      rw [hfirst, List.append_assoc]
    have hfrontLe : front.length ≤ data.length := by
      rw [hfirst, List.length_append]
      exact Nat.le_add_right _ _
    have hfresh : entry.1 ∉ rows.map EmbeddingBaseRow.uid := by
      intro hmem
      exact List.disjoint_of_nodup_append hnodup hmem List.mem_cons_self
    have hlengthRows : (rows ++ [(⟨entry.1, front.length⟩ : EmbeddingBaseRow)]).length = rows.length + 1 := by
      rw [List.length_append, List.length_singleton]
    -- the next vector begins where this one ends
    have hnext : vectorStart + (rows ++ [(⟨entry.1, front.length⟩ : EmbeddingBaseRow)]).length * dimension * 4 =
        (front ++ vectorBytes entry.2).length := by
      rw [hlengthRows, List.length_append, length_vectorBytes, hentry, ← hfront, Nat.succ_mul, Nat.add_mul,
        Nat.add_assoc]
    have hnodupNext : ((rows ++ [(⟨entry.1, front.length⟩ : EmbeddingBaseRow)]).map EmbeddingBaseRow.uid ++
        entries.map Prod.fst).Nodup := by
      rw [List.map_append, List.append_assoc]
      exact hnodup
    obtain ⟨added, hadded, hplaced⟩ := ih hentries (front ++ vectorBytes entry.2) _ hrest hnext hnodupNext
    refine ⟨⟨entry.1, front.length⟩ :: added, ?_, .cons ⟨rfl, front, _, hfirst, rfl⟩ hplaced⟩
    rw [List.map_cons, buildRows, bind_of_ok (ensure_outcome hfresh), mul,
      bind_of_ok (number_outcome (by omega)), mul, bind_of_ok (number_outcome (by omega)), add,
      bind_of_ok (number_outcome (by omega)), hfront, hadded, List.append_assoc, List.singleton_append]

/-! ## Vectors -/

lemma valuesAt_outcome {base : ArtifactBase} {row : EmbeddingBaseRow} {back : List UInt8}
    (hlength : base.bytes.length < 2 ^ 63) (values : List UInt32) (front : List UInt8) (column : ℕ)
    (hbytes : base.bytes = front ++ (vectorBytes values ++ back))
    (hfront : row.vectorOffset + column * 4 = front.length) :
    (base.valuesAt mode row (List.range' column values.length)).outcome = .ok values := by
  induction values generalizing front column with
  | nil => rfl
  | cons value values ih =>
    have hvector : vectorBytes (value :: values) = toLe 4 value.toNat ++ vectorBytes values := by
      rw [vectorBytes, List.flatMap_cons, ← vectorBytes]
    have hfirst : base.bytes = front ++ (toLe 4 value.toNat ++ (vectorBytes values ++ back)) := by
      rw [hbytes, hvector, List.append_assoc]
    have hrest : base.bytes = (front ++ toLe 4 value.toNat) ++ (vectorBytes values ++ back) := by
      rw [hfirst, List.append_assoc]
    have hroom : front.length + 4 ≤ base.bytes.length := by
      rw [hrest, List.length_append, List.length_append, length_toLe]
      omega
    have hslice : (slice base.bytes front.length (front.length + 4)).outcome = .ok (toLe 4 value.toNat) :=
      slice_mid hfirst rfl (by rw [length_toLe])
    have hvalue : UInt32.ofNat (ofLe (toLe 4 value.toNat)) = value := by
      rw [ofLe_toLe value.toNat_lt, UInt32.ofNat_toNat]
    have hvalues := ih (front ++ toLe 4 value.toNat) (column + 1) hrest
      (by rw [List.length_append, length_toLe]; omega)
    rw [List.length_cons, List.range'_succ, ArtifactBase.valuesAt, mul, bind_of_ok (number_outcome (by omega)),
      add, bind_of_ok (number_outcome (by omega)), hfront, add, bind_of_ok (number_outcome (by omega)),
      bind_of_ok hslice, bind_of_ok hvalues, hvalue]
    rfl

lemma vectorAt_outcome {base : ArtifactBase} {entry : String × List UInt32} {row : EmbeddingBaseRow}
    (hlength : base.bytes.length < 2 ^ 63) (hplaced : Placed base.bytes entry row)
    (hdimension : entry.2.length = base.dimension) : (base.vectorAt mode row).outcome = .ok entry.2 := by
  obtain ⟨-, front, back, hbytes, hoffset⟩ := hplaced
  rw [ArtifactBase.vectorAt, ← hdimension, List.range_eq_range']
  exact valuesAt_outcome hlength entry.2 front 0 hbytes (by omega)

lemma find_placed {rows : List EmbeddingBaseRow} (h : List.Forall₂ (Placed data) entries rows) (uid : String) :
    (entries.lookup uid = none ∧ rows.find? (·.uid = uid) = none) ∨
      ∃ vector row, entries.lookup uid = some vector ∧ rows.find? (·.uid = uid) = some row ∧
        (uid, vector) ∈ entries ∧ Placed data (uid, vector) row := by
  induction h with
  | nil => exact .inl ⟨rfl, rfl⟩
  | @cons entry row entries rows hplaced _ ih =>
    by_cases huid : uid = entry.1
    · subst huid
      refine .inr ⟨entry.2, row, ?_, ?_, List.mem_cons_self, hplaced⟩
      · rw [List.lookup_cons, beq_self_eq_true]
      · rw [List.find?_cons, hplaced.1, decide_eq_true rfl]
    · have hrow : ¬row.uid = uid := fun heq => huid (heq.symm.trans hplaced.1)
      rw [List.lookup_cons, beq_false_of_ne huid, List.find?_cons, decide_eq_false hrow]
      obtain ⟨hnone, hfind⟩ | ⟨vector, row', hsome, hfind, hmem, hplaced'⟩ := ih
      · exact .inl ⟨hnone, hfind⟩
      · exact .inr ⟨vector, row', hsome, hfind, List.mem_cons_of_mem _ hmem, hplaced'⟩

/-! ## The file -/

variable {encoded : List UInt8} {envelope : ArtifactEnvelope}

lemma artifactBytes_eq (encoded : List UInt8) (entries : List (String × List UInt32)) :
    artifactBytes encoded entries = artifactMagic ++ (toLe 4 2 ++ (toLe 8 encoded.length ++ (encoded ++
      (uidTable entries ++ vectorRegion entries)))) := by
  simp only [artifactBytes, List.append_assoc]

lemma length_artifactBytes (encoded : List UInt8) (entries : List (String × List UInt32)) :
    (artifactBytes encoded entries).length =
      16 + encoded.length + ((uidTable entries).length + (vectorRegion entries).length) := by
  simp only [artifactBytes, List.length_append, length_toLe]
  rfl

lemma hasHeader_artifactBytes (encoded : List UInt8) (entries : List (String × List UInt32)) :
    HasHeader (artifactBytes encoded entries) where
  length := by
    rw [length_artifactBytes]
    omega
  magic := by
    rw [artifactBytes_eq]
    exact List.take_left' rfl
  version := by
    rw [artifactBytes_eq, List.drop_left' (show artifactMagic.length = 4 from rfl), List.take_left' (length_toLe 4 2)]
    exact ofLe_toLe (by decide)

lemma envelopeLen_artifactBytes (hlength : encoded.length < 2 ^ 64) :
    envelopeLen (artifactBytes encoded entries) = encoded.length := by
  have height : artifactBytes encoded entries = (artifactMagic ++ toLe 4 2) ++ (toLe 8 encoded.length ++ (encoded ++
      (uidTable entries ++ vectorRegion entries))) := by
    rw [artifactBytes_eq, List.append_assoc]
  have hfront : (artifactMagic ++ toLe 4 2).length = 8 := rfl
  rw [envelopeLen, height, List.drop_left' hfront, List.take_left' (length_toLe 8 _)]
  exact ofLe_toLe hlength

lemma encoded_artifactBytes (encoded : List UInt8) (entries : List (String × List UInt32)) :
    ((artifactBytes encoded entries).take (16 + encoded.length)).drop 16 = encoded := by
  have hfront : (artifactMagic ++ toLe 4 2 ++ toLe 8 encoded.length).length = 16 := rfl
  rw [artifactBytes, List.take_left' (by rw [List.length_append, hfront]), List.drop_left' hfront]

lemma payload_artifactBytes (encoded : List UInt8) (entries : List (String × List UInt32)) :
    (slice (artifactBytes encoded entries) (16 + encoded.length) (artifactBytes encoded entries).length).outcome =
      .ok (uidTable entries ++ vectorRegion entries) := by
  have hbytes : artifactBytes encoded entries = (artifactMagic ++ toLe 4 2 ++ toLe 8 encoded.length ++ encoded) ++
      ((uidTable entries ++ vectorRegion entries) ++ []) := by
    rw [List.append_nil, artifactBytes]
  have hfront : 16 + encoded.length = (artifactMagic ++ toLe 4 2 ++ toLe 8 encoded.length ++ encoded).length := by
    simp only [List.length_append, length_toLe]
    rfl
  refine slice_mid hbytes hfront ?_
  rw [length_artifactBytes, List.length_append]

/-- Once the sizes agree, the payload passes. -/
lemma checkSizes_outcome {payload : List UInt8} (hlength : payload.length < 2 ^ 63) (hsized : Sized payload envelope)
    (hpositive : 0 < envelope.dimension) : (checkSizes mode payload envelope).outcome = .ok () := by
  obtain ⟨hpayload, hvectors, hcount⟩ := hsized
  have hrow : 0 < envelope.dimension * 4 := by omega
  have hmultiple : envelope.vectorBytes % (envelope.dimension * 4) = 0 := by
    rw [hvectors]
    exact Nat.mul_mod_left _ _
  have hrows : envelope.count = envelope.vectorBytes / (envelope.dimension * 4) := by
    rw [hvectors, Nat.mul_div_cancel _ hrow]
  rw [checkSizes, add, bind_of_ok (number_outcome (by omega)), bind_of_ok (ensure_outcome hpayload)]
  dsimp only
  rw [bind_of_ok (ensure_outcome hrow), bind_of_ok (ensure_outcome hmultiple), bind_of_ok (ensure_outcome hrows),
    ensure_outcome hcount]

/-- The sizes and the dimension of an envelope are those of the entries. -/
structure Describes (envelope : ArtifactEnvelope) (entries : List (String × List UInt32)) : Prop where
  count : envelope.count = entries.length
  uidTable : envelope.uidTableBytes = (uidTable entries).length
  vectors : envelope.vectorBytes = entries.length * envelope.dimension * 4
  fits : ∀ entry ∈ entries, entry.1.utf8ByteSize ≤ maxUidBytes ∧ entry.2.length = envelope.dimension

lemma Describes.length_vectorRegion (h : Describes envelope entries) :
    (vectorRegion entries).length = envelope.vectorBytes := by
  rw [length_vectorRegion_of fun entry hentry => (h.fits entry hentry).2, h.vectors, Nat.mul_assoc]

lemma Describes.sized (h : Describes envelope entries) (hnamed : ∀ entry ∈ entries, entry.1 ≠ "") :
    Sized (Embedding.uidTable entries ++ vectorRegion entries) envelope := by
  refine ⟨?_, ?_, ?_⟩
  · rw [List.length_append, h.length_vectorRegion, h.uidTable]
  · rw [h.vectors, h.count, Nat.mul_assoc]
  · rw [h.count, h.uidTable, length_uidTable]
    exact length_le_uidTableBytes hnamed

/-- The rows of what was written are read, each with the place of its vector. -/
lemma readRows_outcome {envelopeEnd : ℕ} {front : List UInt8} (hlength : data.length < 2 ^ 63)
    (hdata : data = front ++ (uidTable entries ++ vectorRegion entries)) (hfront : front.length = envelopeEnd)
    (hdescribes : Describes envelope entries)
    (hnodup : (entries.map Prod.fst).Nodup) :
    ∃ rows, (readRows mode envelopeEnd (uidTable entries ++ vectorRegion entries) envelope).outcome = .ok rows ∧
      List.Forall₂ (Placed data) entries rows := by
  have hregion := hdescribes.length_vectorRegion
  obtain ⟨hcount, huidTable, hvectors, hfits⟩ := hdescribes
  have hlengths : data.length = envelopeEnd + ((uidTable entries).length + (vectorRegion entries).length) := by
    rw [hdata, List.length_append, List.length_append, hfront]
  have huids : (readUids mode (uidTable entries ++ vectorRegion entries) envelope.uidTableBytes
      ((uidTable entries ++ vectorRegion entries).length + 1) 0 []).outcome = .ok (entries.map Prod.fst) := by
    refine readUids_outcome ?_ entries (fun entry hentry => (hfits entry hentry).1) [] _ [] rfl ?_ ?_
    · rw [List.length_append]
      omega
    · exact huidTable.trans (Nat.zero_add _).symm
    · rw [List.length_append]
      omega
  have hbytes : data = (front ++ uidTable entries) ++ (vectorRegion entries ++ []) := by
    rw [hdata, List.append_nil, List.append_assoc]
  have hbuild : ∃ rows, (buildRows mode (envelopeEnd + envelope.uidTableBytes) envelope.dimension
      (entries.map Prod.fst) []).outcome = .ok ([] ++ rows) ∧ List.Forall₂ (Placed data) entries rows := by
    refine buildRows_outcome hlength entries (fun entry hentry => (hfits entry hentry).2)
      (front ++ uidTable entries) [] hbytes ?_ hnodup
    rw [List.length_nil, Nat.zero_mul, Nat.zero_mul, Nat.add_zero, List.length_append, hfront, huidTable]
  obtain ⟨rows, hrows, hplaced⟩ := hbuild
  have hsize : (entries.map Prod.fst).length = entries.length := List.length_map _
  refine ⟨rows, ?_, hplaced⟩
  rw [readRows, bind_of_ok reserve_outcome, bind_of_ok huids, bind_of_ok (ensure_outcome (hsize.trans hcount.symm)),
    hsize, mul, bind_of_ok (number_outcome (by omega)), mul, bind_of_ok (number_outcome (by omega)),
    bind_of_ok (ensure_outcome hvectors), add, bind_of_ok (number_outcome (by omega)),
    bind_of_ok reserve_outcome, bind_of_ok reserve_outcome, hrows, List.nil_append]

/-! ## What was saved -/

variable {index : EmbeddingIndex UInt32} {pipeline : EmbeddingPipelineV2} {identity : PublicationIdentity}
  {sha256 : EmbeddingPipelineV2 → String} {sourceGraphGeneration : ℕ}

/-- The checks that an index has passed when it is saved. -/
structure Checked (sha256 : EmbeddingPipelineV2 → String) (index : EmbeddingIndex UInt32)
    (pipeline : EmbeddingPipelineV2) : Prop where
  recorded : ∃ fingerprint, index.requireRecordedPipeline sha256 pipeline = .ok fingerprint
  intact : ∀ base, index.base = some base → base.payloadIntact = true
  dimension : index.snapshotEntries ≠ [] → index.dimension.getD 0 = pipeline.producedDimension
  entries : ∀ entry ∈ index.snapshotEntries,
    entry.1.utf8ByteSize ≤ maxUidBytes ∧ entry.2.length = index.dimension.getD 0

lemma checked_of_saveBinaryV2 {file : BaseFile UInt32}
    (h : index.saveBinaryV2 sha256 identity pipeline = .ok file) : Checked sha256 index pipeline := by
  rw [EmbeddingIndex.saveBinaryV2] at h
  cases hrequire : index.requireRecordedPipeline sha256 pipeline with
  | error e =>
    rw [hrequire] at h
    cases h
  | ok fingerprint =>
    rw [hrequire] at h
    dsimp only at h
    obtain ⟨hcorrupt, h⟩ := ok_of_check h
    obtain ⟨hmismatch, h⟩ := ok_of_check h
    split at h
    · cases h
    · rename_i hentries
      refine ⟨⟨fingerprint, hrequire⟩, fun base hbase => ?_, fun hlive => ?_, checkEntries_eq_ok.mp hentries⟩
      · rw [hbase, Option.any_some] at hcorrupt
        simpa using hcorrupt
      · by_contra hne
        exact hmismatch ⟨hlive, hne⟩

/-- What is written of an index. -/
structure SavesBytes (codec : ArtifactCodec) (index : EmbeddingIndex UInt32) (pipeline : EmbeddingPipelineV2)
    (envelope : ArtifactEnvelope) (data : List UInt8) : Prop where
  checked : Checked codec.sha256 index pipeline
  data : data = artifactBytes (codec.encode envelope) index.snapshotEntries
  schema : envelope.schemaVersion = 2
  pipeline : envelope.pipeline = pipeline
  count : envelope.count = index.snapshotEntries.length % 2 ^ 64
  dimension : envelope.dimension = index.dimension.getD 0 % 2 ^ 32
  uidTableBytes : envelope.uidTableBytes = (uidTable index.snapshotEntries).length % 2 ^ 64
  vectorBytes : envelope.vectorBytes = index.snapshotEntries.length * index.dimension.getD 0 * 4
  payloadBlake3 : envelope.payloadBlake3 =
    codec.blake3 (uidTable index.snapshotEntries ++ vectorRegion index.snapshotEntries)

lemma saveBinaryV2Bytes_eq_ok
    (h : index.saveBinaryV2Bytes codec identity sourceGraphGeneration pipeline = .ok (envelope, data)) :
    SavesBytes codec index pipeline envelope data := by
  rw [EmbeddingIndex.saveBinaryV2Bytes] at h
  cases hsave : index.saveBinaryV2 codec.sha256 identity pipeline with
  | error e =>
    rw [hsave] at h
    cases h
  | ok file =>
    rw [hsave] at h
    dsimp only at h
    have hsaves := saveBinaryV2_eq_ok hsave
    split at h
    · obtain ⟨rfl, rfl⟩ := Prod.mk.inj (Except.ok.inj h)
      have hdimension : file.envelope.dimension = index.dimension.getD 0 := by rw [hsaves.envelope]
      refine ⟨checked_of_saveBinaryV2 hsave, ?_, rfl, rfl, ?_, ?_, ?_, ?_, ?_⟩
      · rw [← hsaves.rows]
      · rw [← hsaves.rows]
      · rw [← hdimension]
      · rw [← hsaves.rows]
      · rw [← hsaves.rows, ← hdimension]
      · rw [← hsaves.rows]
    · cases h

lemma EmbeddingPipelineV2.validate_of_fingerprint {fingerprint : String}
    (h : pipeline.fingerprint sha256 = .ok fingerprint) : pipeline.validate = .ok () := by
  rw [EmbeddingPipelineV2.fingerprint] at h
  cases hvalid : pipeline.validate with
  | error e =>
    rw [hvalid] at h
    cases h
  | ok u => rfl

/-! ## Reading it again -/

/-- Every check on the envelope is passed but, perhaps, the one of its dimension. -/
lemma SavesBytes.envelope_outcome (h : SavesBytes codec index pipeline envelope data) (hlength : data.length < 2 ^ 63)
    (hcodec : codec.decode (codec.encode envelope) = some envelope) :
    (readEnvelope mode codec.toArtifactReader data).outcome =
      (ensure (pipeline.producedDimension = envelope.dimension) "embedding envelope pipeline dimension mismatch"
        >>= fun _ => pure (16 + (codec.encode envelope).length, envelope)).outcome := by
  obtain ⟨fingerprint, hrecorded⟩ := h.checked.recorded
  have hfile := length_artifactBytes (codec.encode envelope) index.snapshotEntries
  rw [← h.data] at hfile
  have hlen : envelopeLen data = (codec.encode envelope).length := by
    rw [h.data]
    exact envelopeLen_artifactBytes (by omega)
  have hheader : HasHeader data := by
    rw [h.data]
    exact hasHeader_artifactBytes _ _
  have hdecoded : codec.decode ((data.take (16 + envelopeLen data)).drop 16) = some envelope := by
    rw [hlen, h.data, encoded_artifactBytes, hcodec]
  have hvalid : envelope.pipeline.validate = .ok () := by
    rw [h.pipeline]
    exact EmbeddingPipelineV2.validate_of_fingerprint (requireRecordedPipeline_eq_ok hrecorded).1
  rw [readEnvelope_of_decoded hlength hheader (by omega) hdecoded h.schema hvalid, hlen, h.pipeline]

/-- The envelope of another dimension is refused. -/
lemma SavesBytes.refused (h : SavesBytes codec index pipeline envelope data) (hlength : data.length < 2 ^ 63)
    (hcodec : codec.decode (codec.encode envelope) = some envelope)
    (hdimension : pipeline.producedDimension ≠ envelope.dimension) :
    (loadBinaryV2Storage mode codec.toArtifactReader data).outcome =
      .error (.error "embedding envelope pipeline dimension mismatch") := by
  rw [loadBinaryV2Storage]
  apply bind_of_error
  rw [h.envelope_outcome hlength hcodec, bind_of_error (ensure_fails hdimension)]

/-- An envelope of the dimension of the pipeline describes the live vectors. -/
lemma SavesBytes.describes (h : SavesBytes codec index pipeline envelope data) (hlength : data.length < 2 ^ 63)
    (hnamed : ∀ entry ∈ index.snapshotEntries, entry.1 ≠ "")
    (hdimension : pipeline.producedDimension = envelope.dimension) : Describes envelope index.snapshotEntries := by
  have hfile := length_artifactBytes (codec.encode envelope) index.snapshotEntries
  rw [← h.data] at hfile
  have hplausible := length_le_uidTableBytes hnamed
  rw [← length_uidTable] at hplausible
  -- a live vector is of the dimension of the pipeline
  have hsame : index.snapshotEntries ≠ [] → index.dimension.getD 0 = envelope.dimension :=
    fun hlive => (h.checked.dimension hlive).trans hdimension
  refine ⟨?_, ?_, ?_, fun entry hentry => ?_⟩
  · rw [h.count, Nat.mod_eq_of_lt (by omega)]
  · rw [h.uidTableBytes, Nat.mod_eq_of_lt (by omega)]
  · rw [h.vectorBytes]
    by_cases hlive : index.snapshotEntries = []
    · rw [hlive, List.length_nil, Nat.zero_mul, Nat.zero_mul, Nat.zero_mul, Nat.zero_mul]
    · rw [hsame hlive]
  · obtain ⟨hshort, hsize⟩ := h.checked.entries entry hentry
    exact ⟨hshort, hsize.trans (hsame (List.ne_nil_of_mem hentry))⟩

/-- What is read of a file. -/
def loadedOf (data : List UInt8) (envelope : ArtifactEnvelope) (encodedLength : ℕ) (fingerprint : String)
    (rows : List EmbeddingBaseRow) : LoadedIndex where
  base := {
    bytes := data
    rows
    dimension := envelope.dimension
    payloadRange := (16 + encodedLength, data.length)
    expectedPayloadBlake3 := envelope.payloadBlake3 }
  recordedModelId := envelope.pipeline.modelId
  recordedPipelineFingerprint := fingerprint
  recordedPipeline := envelope.pipeline
  similarity := envelope.pipeline.similarity
  artifactEnvelope := envelope

/-- An envelope of the dimension of the pipeline is read, with a row for every live vector. -/
lemma SavesBytes.loads (h : SavesBytes codec index pipeline envelope data) (hlength : data.length < 2 ^ 63)
    (hcodec : codec.decode (codec.encode envelope) = some envelope)
    (hnamed : ∀ entry ∈ index.snapshotEntries, entry.1 ≠ "")
    (hdimension : pipeline.producedDimension = envelope.dimension) :
    ∃ rows fingerprint, index.recordedPipelineFingerprint = some fingerprint ∧
      List.Forall₂ (Placed data) index.snapshotEntries rows ∧
      (loadBinaryV2Storage mode codec.toArtifactReader data).outcome =
        .ok (loadedOf data envelope (codec.encode envelope).length fingerprint rows) := by
  obtain ⟨fingerprint, hrecorded⟩ := h.checked.recorded
  obtain ⟨hfingerprint, hproducer⟩ := requireRecordedPipeline_eq_ok hrecorded
  have hpositive := EmbeddingPipelineV2.producedDimension_ne_zero hfingerprint
  have hdescribes := h.describes hlength hnamed hdimension
  have henvelope : (readEnvelope mode codec.toArtifactReader data).outcome =
      .ok (16 + (codec.encode envelope).length, envelope) := by
    rw [h.envelope_outcome hlength hcodec, bind_of_ok (ensure_outcome hdimension)]
    rfl
  have hpayload : (slice data (16 + (codec.encode envelope).length) data.length).outcome =
      .ok (uidTable index.snapshotEntries ++ vectorRegion index.snapshotEntries) := by
    rw [h.data]
    exact payload_artifactBytes _ _
  have hsizes : (checkSizes mode (uidTable index.snapshotEntries ++ vectorRegion index.snapshotEntries)
      envelope).outcome = .ok () := by
    have hfile := length_artifactBytes (codec.encode envelope) index.snapshotEntries
    rw [← h.data] at hfile
    refine checkSizes_outcome ?_ (hdescribes.sized hnamed) (by omega)
    rw [List.length_append]
    omega
  have hfront : (artifactMagic ++ toLe 4 2 ++ toLe 8 (codec.encode envelope).length ++
      codec.encode envelope).length = 16 + (codec.encode envelope).length := by
    simp only [List.length_append, length_toLe]
    rfl
  obtain ⟨rows, hrows, hplaced⟩ : ∃ rows, (readRows mode (16 + (codec.encode envelope).length)
      (uidTable index.snapshotEntries ++ vectorRegion index.snapshotEntries) envelope).outcome = .ok rows ∧
        List.Forall₂ (Placed data) index.snapshotEntries rows :=
    readRows_outcome hlength h.data hfront hdescribes index.nodup_snapshotEntries
  have hdigest : envelope.pipeline.fingerprint codec.toArtifactReader.sha256 = .ok fingerprint := by
    rw [h.pipeline]
    exact hfingerprint
  refine ⟨rows, fingerprint, hproducer, hplaced, ?_⟩
  rw [loadBinaryV2Storage, bind_of_ok henvelope]
  dsimp only
  rw [bind_of_ok hpayload, bind_of_ok hsizes, bind_of_ok hrows, hdigest, bind_of_ok ofExcept_outcome]
  rfl

/-- What is read of the rows is what is live. -/
lemma get_loaded {loaded : LoadedIndex} (hlength : loaded.base.bytes.length < 2 ^ 63)
    (hintact : ∀ base, index.base = some base → base.payloadIntact = true)
    (hplaced : List.Forall₂ (Placed loaded.base.bytes) index.snapshotEntries loaded.base.rows)
    (hdimension : ∀ entry ∈ index.snapshotEntries, entry.2.length = loaded.base.dimension) {payload : List UInt8}
    (hpayload : (slice loaded.base.bytes loaded.base.payloadRange.1 loaded.base.payloadRange.2).outcome = .ok payload)
    {blake3 : List UInt8 → String} (hdigest : blake3 payload = loaded.base.expectedPayloadBlake3) (uid : String) :
    (loaded.get mode blake3 uid).outcome = .ok (index.get uid) := by
  rw [LoadedIndex.get, bind_of_ok hpayload, if_pos hdigest]
  obtain ⟨hnone, hfind⟩ | ⟨vector, row, -, hfind, hmem, hrow⟩ := find_placed hplaced uid
  · have hget : index.get uid = none := by
      by_contra hlive
      obtain ⟨vector, hvector⟩ := Option.ne_none_iff_exists'.mp hlive
      have hmem := (EmbeddingIndex.mem_snapshotEntries hintact).mpr hvector
      have habsent := List.lookup_eq_none_iff.mp hnone _ hmem
      simp at habsent
    rw [hfind, hget]
    rfl
  · rw [hfind, (EmbeddingIndex.mem_snapshotEntries hintact).mp hmem]
    dsimp only
    rw [bind_of_ok (vectorAt_outcome hlength hrow (hdimension _ hmem))]
    rfl

/-- **The round trip.**  An index that was saved is read with the live vectors, the space and the envelope it was
saved with, if and only if the dimension of the index (that of a vector in the overlay, or else of the base, or else
0), in 32 bits, is the one the pipeline produces. -/
theorem saveBinaryV2Bytes_roundTrips_iff {bytes : Bytes}
    (hsaves : index.saveBinaryV2Bytes codec identity sourceGraphGeneration pipeline = .ok (envelope, bytes.data))
    (hcodec : codec.decode (codec.encode envelope) = some envelope) (hnamed : index.get "" = none) :
    RoundTrips codec index pipeline envelope bytes ↔
      index.dimension.getD 0 % 2 ^ 32 = pipeline.producedDimension := by
  have h := saveBinaryV2Bytes_eq_ok hsaves
  have hnames : ∀ entry ∈ index.snapshotEntries, entry.1 ≠ "" := by
    intro entry hentry hempty
    have hget : index.get entry.1 = some entry.2 := (EmbeddingIndex.mem_snapshotEntries h.checked.intact).mp hentry
    rw [hempty, hnamed] at hget
    cases hget
  constructor
  · intro hround
    obtain ⟨loaded, hloaded, -⟩ := hround .checked
    by_contra hne
    have hother : pipeline.producedDimension ≠ envelope.dimension := by
      rw [h.dimension]
      exact Ne.symm hne
    rw [loadBinaryV2Bytes, h.refused bytes.length_lt hcodec hother] at hloaded
    cases hloaded
  · intro hdimension mode
    have hproduced : pipeline.producedDimension = envelope.dimension := by rw [h.dimension, hdimension]
    obtain ⟨rows, fingerprint, hfingerprint, hplaced, hloaded⟩ := h.loads bytes.length_lt hcodec hnames hproduced
    refine ⟨_, hloaded, fun uid => ?_, h.pipeline, hfingerprint.symm, rfl⟩
    have hdescribes := h.describes bytes.length_lt hnames hproduced
    have hpayload := payload_artifactBytes (codec.encode envelope) index.snapshotEntries
    rw [← h.data] at hpayload
    exact get_loaded bytes.length_lt h.checked.intact hplaced (fun entry hentry => (hdescribes.fits entry hentry).2)
      hpayload h.payloadBlake3.symm uid

/-- So it is with every index that has a live vector. -/
lemma SavesBytes.dimension_of_live (h : SavesBytes codec index pipeline envelope data) {uid : String}
    {vector : List UInt32} (hlive : index.get uid = some vector) (hwidth : pipeline.producedDimension < 2 ^ 32) :
    index.dimension.getD 0 % 2 ^ 32 = pipeline.producedDimension := by
  have hmem := (EmbeddingIndex.mem_snapshotEntries h.checked.intact).mpr hlive
  rw [h.checked.dimension (List.ne_nil_of_mem hmem), Nat.mod_eq_of_lt hwidth]

/-! ## Two runs -/

/-- A codec that knows one envelope, with the lengths of the payloads as their digests. -/
def codecOf (known : ArtifactEnvelope) : ArtifactCodec where
  encode envelope := if envelope = known then [0x7B, 0x7D] else []
  decode bytes := if bytes = [0x7B, 0x7D] then some known else none
  sha256 pipeline := pipeline.modelId
  blake3 bytes := toString bytes.length
  producerVersion := "version"

lemma one_lt_two_pow_64 : 1 < 2 ^ 64 := by decide

lemma one_lt_two_pow_32 : 1 < 2 ^ 32 := by decide

lemma three_lt_two_pow_64 : 3 < 2 ^ 64 := by decide

lemma four_lt_two_pow_64 : 4 < 2 ^ 64 := by decide

/-- One UID of one byte, and one component. -/
def lonelyEnvelope : ArtifactEnvelope where
  schemaVersion := 2
  identity := brain
  sourceGraphGeneration := 1
  producerVersion := "version"
  pipeline := firstPipeline
  count := 1
  dimension := 1
  uidTableBytes := 3
  vectorBytes := 4
  payloadBlake3 := "7"
  count_lt := one_lt_two_pow_64
  dimension_lt := one_lt_two_pow_32
  uidTableBytes_lt := three_lt_two_pow_64
  vectorBytes_lt := four_lt_two_pow_64

def lonely : EmbeddingIndex UInt32 :=
  (Op.addWithPipeline "a" [1065353216] firstPipeline false).apply EmbeddingPipelineV2.modelId .new

def lonelyFile : Bytes where
  data := artifactBytes [0x7B, 0x7D] [("a", [1065353216])]
  length_lt := by decide +kernel

/-- An index of one vector is read again. -/
theorem lonely_roundTrips :
    RoundTrips (codecOf lonelyEnvelope) lonely firstPipeline lonelyEnvelope lonelyFile := by
  have hsaves : lonely.saveBinaryV2Bytes (codecOf lonelyEnvelope) brain 1 firstPipeline =
      .ok (lonelyEnvelope, lonelyFile.data) := by decide +kernel
  have hcodec : (codecOf lonelyEnvelope).decode ((codecOf lonelyEnvelope).encode lonelyEnvelope) =
      some lonelyEnvelope := by decide +kernel
  have hnamed : lonely.get "" = none := by decide +kernel
  exact (saveBinaryV2Bytes_roundTrips_iff hsaves hcodec hnamed).mpr (by decide +kernel)

def emptiedEnvelope : ArtifactEnvelope where
  schemaVersion := 2
  identity := brain
  sourceGraphGeneration := 1
  producerVersion := "version"
  pipeline := firstPipeline
  count := 0
  dimension := 0
  uidTableBytes := 0
  vectorBytes := 0
  payloadBlake3 := "0"
  count_lt := by decide
  dimension_lt := by decide
  uidTableBytes_lt := by decide
  vectorBytes_lt := by decide

/-- The only vector is removed before it was ever written. -/
def emptied : EmbeddingIndex UInt32 := (Op.tombstoneUids ["a"]).apply EmbeddingPipelineV2.modelId lonely

def emptiedFile : Bytes where
  data := artifactBytes [0x7B, 0x7D] []
  length_lt := by decide +kernel

/-- An index without a live vector is written, and what was written is refused. -/
theorem emptied_refused :
    emptied.saveBinaryV2Bytes (codecOf emptiedEnvelope) brain 1 firstPipeline =
        .ok (emptiedEnvelope, emptiedFile.data) ∧
      (codecOf emptiedEnvelope).decode ((codecOf emptiedEnvelope).encode emptiedEnvelope) = some emptiedEnvelope ∧
      emptied.get "" = none ∧
      (loadBinaryV2Bytes .checked (codecOf emptiedEnvelope).toArtifactReader emptiedFile).outcome =
        .error (.error "embedding envelope pipeline dimension mismatch") ∧
      ¬RoundTrips (codecOf emptiedEnvelope) emptied firstPipeline emptiedEnvelope emptiedFile := by
  have hrefused : (loadBinaryV2Bytes .checked (codecOf emptiedEnvelope).toArtifactReader emptiedFile).outcome =
      .error (.error "embedding envelope pipeline dimension mismatch") := by rfl
  refine ⟨by decide +kernel, by decide +kernel, by decide +kernel, hrefused, fun hround => ?_⟩
  obtain ⟨loaded, hloaded, -⟩ := hround .checked
  rw [hrefused] at hloaded
  cases hloaded

end Embedding
end NestWeaver
