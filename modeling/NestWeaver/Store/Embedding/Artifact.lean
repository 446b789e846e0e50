import NestWeaver.Framework.Guarded
import NestWeaver.Framework.LittleEndian
import NestWeaver.Store.Embedding.Index

/-!
# The embedding artifact

`load_binary_v2_storage` of `crates/nestweaver-store/src/search.rs`: the bytes of an artifact are a header, an
envelope in JSON behind its length, a table of UIDs behind their lengths, and the components of the vectors.
Nothing in the bytes is trusted.

Two sums of lengths are computed before anything bounds them.  So the decoder is total, on all bytes that a slice
can have, exactly as long as neither is too large (`loadBinaryV2Bytes_total_iff`): otherwise it panics where
overflow is checked.

JSON and the digest of a pipeline are parameters.
-/

set_option linter.all false

namespace NestWeaver
namespace Embedding

open Guarded Guarded.Run LittleEndian

/-! ## The code -/

/-- The envelope as it is written, with numbers of their widths. -/
structure ArtifactEnvelope extends EmbeddingArtifactEnvelopeV2 where
  sourceGraphGeneration : ℕ
  producerVersion : String
  payloadBlake3 : String
  count_lt : count < 2 ^ 64
  dimension_lt : dimension < 2 ^ 32
  uidTableBytes_lt : uidTableBytes < 2 ^ 64
  vectorBytes_lt : vectorBytes < 2 ^ 64
  deriving DecidableEq

/-- The bytes of a file or a slice. -/
structure Bytes where
  data : List UInt8
  length_lt : data.length < 2 ^ 63

structure EmbeddingBaseRow where
  uid : String
  vectorOffset : ℕ
  deriving DecidableEq, Repr

/-- The base over the bytes it was read from.  The row of a UID is the one in the list. -/
structure ArtifactBase where
  bytes : List UInt8
  rows : List EmbeddingBaseRow
  dimension : ℕ
  payloadRange : ℕ × ℕ
  expectedPayloadBlake3 : String

/-- What a loaded index does not share with a new one. -/
structure LoadedIndex where
  base : ArtifactBase
  recordedModelId : String
  recordedPipelineFingerprint : String
  recordedPipeline : EmbeddingPipelineV2
  similarity : EmbeddingSimilarity
  artifactEnvelope : ArtifactEnvelope

/-- What the reader depends on: JSON and the digest of a pipeline. -/
structure ArtifactReader where
  decode : List UInt8 → Option ArtifactEnvelope
  sha256 : EmbeddingPipelineV2 → String

def artifactMagic : List UInt8 := [0x4E, 0x57, 0x45, 0x32]

/-- `from_utf8`. -/
def decodeUtf8 (bytes : List UInt8) : Option String := String.fromUTF8? bytes.toByteArray

section Code

variable (mode : Overflow) (reader : ArtifactReader)

/-- The length of the envelope that the header says. -/
def envelopeLen (data : List UInt8) : ℕ := ofLe ((data.drop 8).take 8)

def checkHeader (data : List UInt8) : Run Unit := do
  ensure (16 ≤ data.length) "embedding v2 file too small"
  ensure (data.take 4 = artifactMagic) "embedding artifact requires full re-embed into v2"
  ensure (ofLe ((data.drop 4).take 4) = 2)
    ("unsupported embedding file version " ++ toString (ofLe ((data.drop 4).take 4)))

/-- Where the envelope ends, and the envelope. -/
def readEnvelope (data : List UInt8) : Run (ℕ × ArtifactEnvelope) := do
  checkHeader data
  let envelopeEnd ← add mode 16 (envelopeLen data)
  ensure (envelopeEnd ≤ data.length) "truncated embedding v2 envelope"
  let encoded ← slice data 16 envelopeEnd
  let envelope ← ofOption (reader.decode encoded) "invalid envelope"
  ensure (envelope.schemaVersion = 2) "unsupported embedding schema"
  ofExcept envelope.pipeline.validate
  ensure (envelope.pipeline.producedDimension = envelope.dimension)
    "embedding envelope pipeline dimension mismatch"
  pure (envelopeEnd, envelope)

/-- What the lengths of the envelope must say of each other and the payload. -/
def checkSizes (payload : List UInt8) (envelope : ArtifactEnvelope) : Run Unit := do
  let payloadLength ← add mode envelope.uidTableBytes envelope.vectorBytes
  ensure (payload.length = payloadLength) "embedding v2 payload length mismatch"
  let dimensionBytes := envelope.dimension * 4
  ensure (0 < dimensionBytes) "embedding envelope has zero dimension"
  ensure (envelope.vectorBytes % dimensionBytes = 0)
    ("embedding vector region " ++ toString envelope.vectorBytes ++ " is not a multiple of the row size " ++
      toString dimensionBytes)
  ensure (envelope.count = envelope.vectorBytes / dimensionBytes)
    ("implausible embedding count " ++ toString envelope.count ++ ": vector region holds " ++
      toString (envelope.vectorBytes / dimensionBytes) ++ " rows")
  ensure (envelope.count ≤ envelope.uidTableBytes / 3)
    ("implausible embedding count " ++ toString envelope.count ++ ": uid table is only " ++
      toString envelope.uidTableBytes ++ " bytes")

/-- The UIDs of the table.  Every round moves the offset on within the payload, so there are no more rounds than
there are bytes. -/
def readUids (payload : List UInt8) (uidEnd : ℕ) : ℕ → ℕ → List String → Run (List String)
  | 0, _, _ => ⟨[], .error .panicked⟩
  | fuel + 1, offset, uids =>
    if offset < uidEnd then do
      let lengthEnd ← add mode offset 2
      ensure (lengthEnd ≤ uidEnd) "truncated embedding UID length"
      let lengthBytes ← slice payload offset lengthEnd
      let uidStop ← add mode lengthEnd (ofLe lengthBytes)
      ensure (uidStop ≤ uidEnd) "truncated embedding UID"
      let uidBytes ← slice payload lengthEnd uidStop
      let uid ← ofOption (decodeUtf8 uidBytes) "invalid utf-8 sequence"
      readUids payload uidEnd fuel uidStop (uids ++ [uid])
    else pure uids

/-- The rows, each with the place of its vector. -/
def buildRows (vectorStart dimension : ℕ) : List String → List EmbeddingBaseRow → Run (List EmbeddingBaseRow)
  | [], rows => pure rows
  | uid :: uids, rows => do
    ensure (uid ∉ rows.map EmbeddingBaseRow.uid) "duplicate embedding UID"
    let values ← mul mode rows.length dimension
    let rowStart ← mul mode values 4
    let vectorOffset ← add mode vectorStart rowStart
    buildRows vectorStart dimension uids (rows ++ [⟨uid, vectorOffset⟩])

/-- The table of UIDs and the rows, once the sizes are checked. -/
def readRows (envelopeEnd : ℕ) (payload : List UInt8) (envelope : ArtifactEnvelope) :
    Run (List EmbeddingBaseRow) := do
  reserve envelope.count
  let uids ← readUids mode payload envelope.uidTableBytes (payload.length + 1) 0 []
  ensure (uids.length = envelope.count) "embedding UID count mismatch"
  let values ← mul mode uids.length envelope.dimension
  let vectorBytes ← mul mode values 4
  ensure (envelope.vectorBytes = vectorBytes) "embedding vector byte count mismatch"
  let vectorStart ← add mode envelopeEnd envelope.uidTableBytes
  reserve uids.length
  reserve uids.length
  buildRows mode vectorStart envelope.dimension uids []

def loadBinaryV2Storage (data : List UInt8) : Run LoadedIndex := do
  let (envelopeEnd, envelope) ← readEnvelope mode reader data
  let payload ← slice data envelopeEnd data.length
  checkSizes mode payload envelope
  let rows ← readRows mode envelopeEnd payload envelope
  let fingerprint ← ofExcept (envelope.pipeline.fingerprint reader.sha256)
  pure {
    base := {
      bytes := data
      rows
      dimension := envelope.dimension
      payloadRange := (envelopeEnd, data.length)
      expectedPayloadBlake3 := envelope.payloadBlake3 }
    recordedModelId := envelope.pipeline.modelId
    recordedPipelineFingerprint := fingerprint
    recordedPipeline := envelope.pipeline
    similarity := envelope.pipeline.similarity
    artifactEnvelope := envelope }

def loadBinaryV2Bytes (bytes : Bytes) : Run LoadedIndex := loadBinaryV2Storage mode reader bytes.data

def ArtifactBase.valuesAt (base : ArtifactBase) (row : EmbeddingBaseRow) : List ℕ → Run (List UInt32)
  | [] => pure []
  | column :: columns => do
    let skipped ← mul mode column 4
    let offset ← add mode row.vectorOffset skipped
    let stop ← add mode offset 4
    let value ← slice base.bytes offset stop
    let values ← base.valuesAt row columns
    pure (UInt32.ofNat (ofLe value) :: values)

def ArtifactBase.vectorAt (base : ArtifactBase) (row : EmbeddingBaseRow) : Run (List UInt32) :=
  base.valuesAt mode row (List.range base.dimension)

end Code

/-! ## What is asked for -/

/-- The rows of an index lie in the file behind the table of UIDs, are as many as the envelope says, and have
UIDs of their own. -/
structure WellPlaced (data : List UInt8) (index : LoadedIndex) : Prop where
  bytes : index.base.bytes = data
  dimension : index.base.dimension = index.artifactEnvelope.dimension
  inside : ∀ row ∈ index.base.rows, row.vectorOffset + index.base.dimension * 4 ≤ data.length
  behind : ∀ row ∈ index.base.rows,
    index.base.payloadRange.1 + index.artifactEnvelope.uidTableBytes ≤ row.vectorOffset
  nodup : (index.base.rows.map EmbeddingBaseRow.uid).Nodup
  count : index.base.rows.length = index.artifactEnvelope.count

/-- Whether overflow is checked or not, the decoder does not panic, reserves room for no more entries than there
are bytes, and an index that it returns is well placed. -/
def Total (reader : ArtifactReader) (bytes : Bytes) : Prop :=
  ∀ mode, (loadBinaryV2Bytes mode reader bytes).Safe bytes.data.length (WellPlaced bytes.data)

/-- The header is one of an artifact. -/
structure HasHeader (data : List UInt8) : Prop where
  length : 16 ≤ data.length
  magic : data.take 4 = artifactMagic
  version : ofLe ((data.drop 4).take 4) = 2

/-- The envelope that is read of an artifact, if its length is sound. -/
structure HasEnvelope (reader : ArtifactReader) (data : List UInt8) (envelope : ArtifactEnvelope) : Prop where
  header : HasHeader data
  fits : 16 + envelopeLen data ≤ data.length
  decoded : reader.decode ((data.take (16 + envelopeLen data)).drop 16) = some envelope
  schema : envelope.schemaVersion = 2
  valid : envelope.pipeline.validate = .ok ()
  dimension : envelope.pipeline.producedDimension = envelope.dimension

/-- Neither of the sums is too large that are computed before anything bounds them. -/
structure SumsFit (reader : ArtifactReader) (data : List UInt8) : Prop where
  envelope : HasHeader data → 16 + envelopeLen data < 2 ^ 64
  payload : ∀ envelope, HasEnvelope reader data envelope → envelope.uidTableBytes + envelope.vectorBytes < 2 ^ 64

/-! ## The sums of the reader -/

variable {mode : Overflow} {reader : ArtifactReader} {data : List UInt8}

/-- What the sizes of an envelope are once they are checked. -/
structure Sized (payload : List UInt8) (envelope : ArtifactEnvelope) : Prop where
  payload : payload.length = envelope.uidTableBytes + envelope.vectorBytes
  vectors : envelope.vectorBytes = envelope.count * (envelope.dimension * 4)
  count : envelope.count ≤ envelope.uidTableBytes / 3

lemma checkHeader_safe {bound : ℕ} : (checkHeader data).Safe bound fun _ => HasHeader data := by
  refine ensure_then fun hlength => ensure_then fun hmagic => ?_
  exact safe_ensure fun hversion => ⟨hlength, hmagic, hversion⟩

lemma readEnvelope_safe (hfits : SumsFit reader data) :
    (readEnvelope mode reader data).Safe data.length fun result =>
      result.1 = 16 + envelopeLen data ∧ result.1 ≤ data.length ∧ HasEnvelope reader data result.2 := by
  refine checkHeader_safe.bind fun _ hheader => ?_
  have hlt : 16 + envelopeLen data < 2 ^ 64 := hfits.envelope hheader
  refine number_then hlt (ensure_then fun hle => ?_)
  refine slice_then (Nat.le_add_right 16 _) hle (ofOption_then fun envelope hdecoded => ?_)
  refine ensure_then fun hschema => ofExcept_then fun _ hvalid => ensure_then fun hdimension => ?_
  exact safe_pure ⟨rfl, hle, hheader, hle, hdecoded, hschema, hvalid, hdimension⟩

lemma checkSizes_safe {bound : ℕ} {payload : List UInt8} {envelope : ArtifactEnvelope}
    (hlt : envelope.uidTableBytes + envelope.vectorBytes < 2 ^ 64) :
    (checkSizes mode payload envelope).Safe bound fun _ => Sized payload envelope := by
  refine number_then hlt (ensure_then fun hpayload => ensure_then fun _ => ?_)
  refine ensure_then fun hmultiple => ensure_then fun hcount => ?_
  refine safe_ensure fun hplausible => ⟨hpayload, ?_, hplausible⟩
  rw [hcount, Nat.div_mul_cancel (Nat.dvd_of_mod_eq_zero hmultiple)]

/-- No round leaves the table, and each moves on. -/
lemma readUids_safe {bound : ℕ} {payload : List UInt8} {uidEnd : ℕ} (hlength : payload.length < 2 ^ 63)
    (hend : uidEnd ≤ payload.length) (fuel offset : ℕ) (uids : List String) (hoffset : offset ≤ uidEnd)
    (hfuel : uidEnd - offset < fuel) :
    (readUids mode payload uidEnd fuel offset uids).Safe bound fun _ => True := by
  induction fuel generalizing offset uids with
  | zero => omega
  | succ fuel ih =>
    rw [readUids]
    by_cases hlt : offset < uidEnd
    · rw [if_pos hlt]
      refine number_then (by omega) (ensure_then fun hle => ?_)
      refine slice_then (Nat.le_add_right offset 2) (hle.trans hend) ?_
      -- the length of a UID has 16 bits
      have hwidth : ((payload.take (offset + 2)).drop offset).length ≤ 2 := by
        rw [List.length_drop, List.length_take]
        omega
      have hsmall : ofLe ((payload.take (offset + 2)).drop offset) < 2 ^ 16 :=
        (ofLe_lt _).trans_le (Nat.pow_le_pow_right (show 0 < 256 by omega) hwidth)
      refine number_then (by omega) (ensure_then fun hstop => ?_)
      refine slice_then (Nat.le_add_right _ _) (hstop.trans hend) (ofOption_then fun uid _ => ?_)
      exact ih _ (uids ++ [uid]) hstop (by omega)
    · rw [if_neg hlt]
      exact safe_pure trivial

/-- Rows behind one place and before another, with UIDs of their own. -/
structure Rows (start stop rowBytes : ℕ) (rows : List EmbeddingBaseRow) : Prop where
  nodup : (rows.map EmbeddingBaseRow.uid).Nodup
  behind : ∀ row ∈ rows, start ≤ row.vectorOffset
  inside : ∀ row ∈ rows, row.vectorOffset + rowBytes ≤ stop

lemma Rows.nil {start stop rowBytes : ℕ} : Rows start stop rowBytes [] := by
  refine ⟨List.nodup_nil, fun row h => ?_, fun row h => ?_⟩
  · exact absurd h List.not_mem_nil
  · exact absurd h List.not_mem_nil

lemma Rows.push {start stop rowBytes offset : ℕ} {rows : List EmbeddingBaseRow} {uid : String}
    (h : Rows start stop rowBytes rows) (huid : uid ∉ rows.map EmbeddingBaseRow.uid) (hstart : start ≤ offset)
    (hstop : offset + rowBytes ≤ stop) : Rows start stop rowBytes (rows ++ [⟨uid, offset⟩]) := by
  refine ⟨?_, fun row hrow => ?_, fun row hrow => ?_⟩
  · rw [List.map_append, List.map_singleton]
    refine List.nodup_append.mpr ⟨h.nodup, List.nodup_singleton _, fun uid' hmem uid'' hsingle heq => huid ?_⟩
    rw [← show uid'' = uid from List.mem_singleton.mp hsingle, ← heq]
    exact hmem
  · obtain hrow | hrow := List.mem_append.mp hrow
    · exact h.behind row hrow
    · rw [List.mem_singleton.mp hrow]
      exact hstart
  · obtain hrow | hrow := List.mem_append.mp hrow
    · exact h.inside row hrow
    · rw [List.mem_singleton.mp hrow]
      exact hstop

lemma buildRows_safe {bound vectorStart dimension stop : ℕ} (hstop : stop < 2 ^ 63) (uids : List String)
    (rows : List EmbeddingBaseRow) (hrows : Rows vectorStart stop (dimension * 4) rows)
    (hroom : vectorStart + (rows.length + uids.length) * (dimension * 4) ≤ stop) :
    (buildRows mode vectorStart dimension uids rows).Safe bound fun result =>
      Rows vectorStart stop (dimension * 4) result ∧ result.length = rows.length + uids.length := by
  induction uids generalizing rows with
  | nil => exact safe_pure ⟨hrows, rfl⟩
  | cons uid uids ih =>
    rw [buildRows]
    -- the vector of this row ends where that of the next one begins
    have hoffset : rows.length * dimension * 4 = rows.length * (dimension * 4) := Nat.mul_assoc _ _ _
    have hnext : vectorStart + (rows.length + 1 + uids.length) * (dimension * 4) ≤ stop := by
      rw [Nat.add_assoc, Nat.add_comm 1, ← List.length_cons]
      exact hroom
    have hend : vectorStart + rows.length * dimension * 4 + dimension * 4 ≤ stop := by
      have hle : (rows.length + 1) * (dimension * 4) ≤ (rows.length + 1 + uids.length) * (dimension * 4) :=
        Nat.mul_le_mul_right _ (Nat.le_add_right _ _)
      rw [Nat.succ_mul] at hle
      omega
    refine ensure_then fun hfresh => ?_
    refine number_then (by omega) (number_then (by omega) (number_then (by omega) ?_))
    have hpush := hrows.push hfresh (Nat.le_add_right vectorStart _) hend
    have hsafe := ih _ hpush (by rwa [List.length_append, List.length_singleton])
    refine hsafe.mono fun result hresult => ⟨hresult.1, ?_⟩
    rw [hresult.2, List.length_append, List.length_singleton, List.length_cons]
    omega

lemma readRows_safe {envelopeEnd : ℕ} {payload : List UInt8} {envelope : ArtifactEnvelope}
    (hlength : data.length < 2 ^ 63) (hend : envelopeEnd + payload.length = data.length)
    (hsized : Sized payload envelope) :
    (readRows mode envelopeEnd payload envelope).Safe data.length fun rows =>
      Rows (envelopeEnd + envelope.uidTableBytes) data.length (envelope.dimension * 4) rows ∧
        rows.length = envelope.count := by
  obtain ⟨hpayload, hvectors, hcount⟩ := hsized
  have hcountLe : envelope.count ≤ data.length := by omega
  refine reserve_then hcountLe ?_
  refine (readUids_safe (by omega) (by omega) _ _ _ (Nat.zero_le _) (by omega)).bind fun uids _ => ?_
  refine ensure_then fun huids => ?_
  have hbytes : uids.length * envelope.dimension * 4 = envelope.vectorBytes := by
    rw [hvectors, huids, Nat.mul_assoc]
  refine number_then (by omega) (number_then (by omega) (ensure_then fun _ => number_then (by omega) ?_))
  refine reserve_then (huids.trans_le hcountLe) (reserve_then (huids.trans_le hcountLe) ?_)
  refine (buildRows_safe hlength uids [] Rows.nil ?_).mono fun rows hrows => ⟨hrows.1, ?_⟩
  · rw [List.length_nil, Nat.zero_add, ← Nat.mul_assoc]
    omega
  · rw [hrows.2, List.length_nil, Nat.zero_add, huids]

/-- Where the sums fit, the decoder is safe. -/
lemma loadBinaryV2Storage_safe (hlength : data.length < 2 ^ 63) (hfits : SumsFit reader data) :
    (loadBinaryV2Storage mode reader data).Safe data.length (WellPlaced data) := by
  refine (readEnvelope_safe hfits).bind fun result hresult => ?_
  obtain ⟨hend, hle, henvelope⟩ := hresult
  refine slice_then hle le_rfl ?_
  have hpayload : result.1 + ((data.take data.length).drop result.1).length = data.length := by
    rw [List.length_drop, List.length_take]
    omega
  refine (checkSizes_safe (hfits.payload result.2 henvelope)).bind fun _ hsized => ?_
  refine (readRows_safe hlength hpayload hsized).bind fun rows hrows => ?_
  refine ofExcept_then fun fingerprint _ => ?_
  exact safe_pure ⟨rfl, rfl, hrows.1.inside, hrows.1.behind, hrows.1.nodup, hrows.2⟩

lemma valuesAt_safe {base : ArtifactBase} {row : EmbeddingBaseRow} {bound : ℕ} (hlength : base.bytes.length < 2 ^ 63)
    (hinside : row.vectorOffset + base.dimension * 4 ≤ base.bytes.length) (columns : List ℕ)
    (hcolumns : ∀ column ∈ columns, column < base.dimension) :
    (base.valuesAt mode row columns).Safe bound fun values => values.length = columns.length := by
  induction columns with
  | nil => exact safe_pure rfl
  | cons column columns ih =>
    obtain ⟨hcolumn, hcolumns⟩ := List.forall_mem_cons.mp hcolumns
    rw [ArtifactBase.valuesAt]
    refine number_then (by omega) (number_then (by omega) (number_then (by omega) ?_))
    refine slice_then (Nat.le_add_right _ _) (by omega) ?_
    refine (ih hcolumns).bind fun values hvalues => safe_pure ?_
    rw [List.length_cons, List.length_cons, hvalues]

/-- The vectors of a well-placed index are read within its bytes. -/
lemma WellPlaced.vectorAt_safe {index : LoadedIndex} (h : WellPlaced data index) (hlength : data.length < 2 ^ 63)
    {row : EmbeddingBaseRow} (hrow : row ∈ index.base.rows) {bound : ℕ} :
    (index.base.vectorAt mode row).Safe bound fun vector => vector.length = index.base.dimension := by
  have hinside := h.inside row hrow
  rw [← h.bytes] at hlength hinside
  refine (valuesAt_safe hlength hinside (List.range index.base.dimension) fun column hcolumn => ?_).mono
    fun vector hvector => ?_
  · exact List.mem_range.mp hcolumn
  · rw [hvector, List.length_range]

/-! ## Sums that are too large -/

lemma checkHeader_outcome (h : HasHeader data) : (checkHeader data).outcome = .ok () := by
  rw [checkHeader, bind_of_ok (ensure_outcome h.length), bind_of_ok (ensure_outcome h.magic),
    ensure_outcome h.version]

/-- Up to the check of the dimension. -/
lemma readEnvelope_of_decoded {envelope : ArtifactEnvelope} (hlength : data.length < 2 ^ 63)
    (hheader : HasHeader data) (hfits : 16 + envelopeLen data ≤ data.length)
    (hdecoded : reader.decode ((data.take (16 + envelopeLen data)).drop 16) = some envelope)
    (hschema : envelope.schemaVersion = 2) (hvalid : envelope.pipeline.validate = .ok ()) :
    (readEnvelope mode reader data).outcome =
      (ensure (envelope.pipeline.producedDimension = envelope.dimension)
        "embedding envelope pipeline dimension mismatch" >>= fun _ =>
          pure (16 + envelopeLen data, envelope)).outcome := by
  have hlt : 16 + envelopeLen data < 2 ^ 64 := by omega
  have hslice := slice_outcome (Nat.le_add_right 16 (envelopeLen data)) hfits
  rw [readEnvelope, bind_of_ok (checkHeader_outcome hheader), add, bind_of_ok (number_outcome hlt),
    bind_of_ok (ensure_outcome hfits), bind_of_ok hslice, hdecoded, bind_of_ok ofOption_outcome,
    bind_of_ok (ensure_outcome hschema), hvalid, bind_of_ok ofExcept_outcome]

lemma readEnvelope_outcome {envelope : ArtifactEnvelope} (hlength : data.length < 2 ^ 63)
    (h : HasEnvelope reader data envelope) :
    (readEnvelope mode reader data).outcome = .ok (16 + envelopeLen data, envelope) := by
  rw [readEnvelope_of_decoded hlength h.header h.fits h.decoded h.schema h.valid,
    bind_of_ok (ensure_outcome h.dimension)]
  rfl

/-- Where overflow is not checked, the envelope would end before it begins. -/
lemma panics_of_envelope (hheader : HasHeader data) (hlarge : 2 ^ 64 ≤ 16 + envelopeLen data) :
    (loadBinaryV2Storage mode reader data).outcome = .error .panicked := by
  have hread : (readEnvelope mode reader data).outcome = .error .panicked := by
    rw [readEnvelope, bind_of_ok (checkHeader_outcome hheader), add]
    cases mode with
    | checked => exact bind_of_error (number_checked hlarge)
    | wrapping =>
      have hlt : envelopeLen data < 256 ^ 8 := by
        refine (ofLe_lt _).trans_le (Nat.pow_le_pow_right (by omega) ?_)
        exact List.length_take_le 8 _
      have hleft : (16 + envelopeLen data) % 2 ^ 64 < 16 := by omega
      have hlength := hheader.length
      rw [bind_of_ok (number_wrapping _), bind_of_ok (ensure_outcome (by omega)),
        bind_of_error (slice_panics hleft)]
  rw [loadBinaryV2Storage, bind_of_error hread]

lemma panics_of_payload {envelope : ArtifactEnvelope} (hlength : data.length < 2 ^ 63)
    (h : HasEnvelope reader data envelope) (hlarge : 2 ^ 64 ≤ envelope.uidTableBytes + envelope.vectorBytes) :
    (loadBinaryV2Storage .checked reader data).outcome = .error .panicked := by
  rw [loadBinaryV2Storage, bind_of_ok (readEnvelope_outcome hlength h), bind_of_ok (slice_outcome h.fits le_rfl)]
  apply bind_of_error
  rw [checkSizes, add, bind_of_error (number_checked hlarge)]

/-- **The decoder is total as long as two sums fit.**  For all bytes that a slice can have: whether overflow is
checked or not, it does not panic, reserves no more than there are bytes, and returns well-placed rows or an
error, if and only if neither the end of the envelope nor the size of the payload is too large for 64 bits, where
it is computed. -/
theorem loadBinaryV2Bytes_total_iff (reader : ArtifactReader) (bytes : Bytes) :
    Total reader bytes ↔ SumsFit reader bytes.data := by
  constructor
  · intro htotal
    have hsafe := (htotal .checked).not_panicked
    refine ⟨fun hheader => ?_, fun envelope henvelope => ?_⟩
    · by_contra hlarge
      exact hsafe (panics_of_envelope hheader (not_lt.mp hlarge))
    · by_contra hlarge
      exact hsafe (panics_of_payload bytes.length_lt henvelope (not_lt.mp hlarge))
  · intro hfits mode
    exact loadBinaryV2Storage_safe bytes.length_lt hfits

/-- A header that says an envelope of almost 2^64 bytes, and nothing after it. -/
def lyingHeader : Bytes where
  data := artifactMagic ++ toLe 4 2 ++ toLe 8 (2 ^ 64 - 16)
  length_lt := by decide +kernel

/-- On these 16 bytes the decoder panics, whatever its JSON, and whether overflow is checked or not. -/
theorem loadBinaryV2Bytes_panics :
    (∀ reader, ¬Total reader lyingHeader) ∧
      ∀ reader mode, (loadBinaryV2Bytes mode reader lyingHeader).outcome = .error .panicked := by
  have hheader : HasHeader lyingHeader.data := ⟨by decide +kernel, by decide +kernel, by decide +kernel⟩
  have hlarge : 2 ^ 64 ≤ 16 + envelopeLen lyingHeader.data := by decide +kernel
  have hpanics : ∀ reader mode,
      (loadBinaryV2Bytes mode reader lyingHeader).outcome = .error .panicked :=
    fun _ _ => panics_of_envelope hheader hlarge
  refine ⟨fun reader htotal => ?_, hpanics⟩
  exact (htotal .checked).not_panicked (hpanics reader .checked)

end Embedding
end NestWeaver
