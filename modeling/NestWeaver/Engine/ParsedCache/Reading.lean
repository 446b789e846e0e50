import NestWeaver.Engine.ParsedCache.System

/-!
# What reading the files finds

The log is whole records, up to a torn one at its end.  To read on after some of the records gives what follows
them (`readLog_of_upTo`), and an append goes behind the whole records (`exists_readLog_append`).
-/

set_option linter.all false

namespace NestWeaver
namespace ParseCache

open Framing

variable {E : Type} {codec : Codec E} {log log' : Bytes} {offset : ℕ} {records : List (LogRecord E)}

lemma bindings_append (front back : List (LogRecord E)) :
    bindings (front ++ back) = bindings back ++ bindings front := by
  rw [bindings, List.filterMap_append, List.reverse_append]
  rfl

lemma mem_map_fst {entries : Entries E} {hash : String} :
    hash ∈ entries.map Prod.fst ↔ (entries.lookup hash).isSome := by
  rw [List.lookup_isSome_iff, List.mem_map]
  exact exists_congr fun entry => and_congr_right fun _ => by rw [beq_iff_eq, eq_comm]

/-! ## Records before an offset -/

/-- The bodies are read as the records. -/
abbrev Decodes (codec : Codec E) : List Bytes → List (LogRecord E) → Prop :=
  List.Forall₂ (Reads maxLogRecordBytes codec.recordFromSlice)

/-- The log begins with these records, and the offset is where they end. -/
def UpTo (codec : Codec E) (log : Bytes) (offset : ℕ) (records : List (LogRecord E)) : Prop :=
  ∃ bodies, Decodes codec bodies records ∧ bodies.flatMap frame <+: log ∧
    offset = (bodies.flatMap frame).length

lemma upTo_zero (log : Bytes) : UpTo codec log 0 [] := ⟨[], .nil, List.nil_prefix, rfl⟩

lemma UpTo.le (h : UpTo codec log offset records) : offset ≤ log.length := by
  obtain ⟨bodies, -, hprefix, rfl⟩ := h
  exact hprefix.length_le

/-- The log may change after the offset. -/
lemma UpTo.of_take (h : UpTo codec log offset records) (hlog : log.take offset <+: log') :
    UpTo codec log' offset records := by
  obtain ⟨bodies, hdecodes, hprefix, rfl⟩ := h
  rw [← List.prefix_iff_eq_take.mp hprefix] at hlog
  exact ⟨bodies, hdecodes, hlog, rfl⟩

lemma UpTo.mono (h : UpTo codec log offset records) (hlog : log <+: log') :
    UpTo codec log' offset records :=
  h.of_take ((List.take_prefix offset log).trans hlog)

lemma exists_decodes (codec : Codec E) (bytes : Bytes) : ∃ bodies,
    Decodes codec bodies (scan maxLogRecordBytes codec.recordFromSlice bytes).1 ∧
      bytes = bodies.flatMap frame ++ (scan maxLogRecordBytes codec.recordFromSlice bytes).2 := by
  obtain ⟨bodies, hdecodes, hbytes, -⟩ := scan_spec bytes
  exact ⟨bodies, hdecodes, hbytes⟩

lemma length_scan_le (codec : Codec E) (bytes : Bytes) :
    (scan maxLogRecordBytes codec.recordFromSlice bytes).2.length ≤ bytes.length := by
  obtain ⟨bodies, -, hbytes⟩ := exists_decodes codec bytes
  have hlength := congrArg List.length hbytes
  rw [List.length_append] at hlength
  omega

lemma UpTo.drop (h : UpTo codec log offset records) :
    ∃ bodies, Decodes codec bodies records ∧ log = bodies.flatMap frame ++ log.drop offset ∧
      offset = (bodies.flatMap frame).length := by
  obtain ⟨bodies, hdecodes, ⟨rest, rfl⟩, rfl⟩ := h
  refine ⟨bodies, hdecodes, ?_, rfl⟩
  rw [List.drop_left]

/-- **To read on is to read the rest.** -/
lemma readLog_of_upTo (h : UpTo codec log offset records) :
    readLog codec log 0 =
      ((readLog codec log offset).1 ++ bindings records, (readLog codec log offset).2) := by
  obtain ⟨bodies, hdecodes, hlog, hoffset⟩ := h.drop
  have hscan : scan maxLogRecordBytes codec.recordFromSlice log =
      (records ++ (scan maxLogRecordBytes codec.recordFromSlice (log.drop offset)).1,
        (scan maxLogRecordBytes codec.recordFromSlice (log.drop offset)).2) := by
    conv_lhs => rw [hlog]
    exact scan_frames hdecodes _
  have hle := length_scan_le codec (log.drop offset)
  have hlength := congrArg List.length hlog
  rw [List.length_append, ← hoffset] at hlength
  simp only [readLog, List.drop_zero, hscan, bindings_append, Prod.mk.injEq, true_and]
  omega

/-- Where reading on ends, there are whole records before. -/
lemma UpTo.exists_readLog (h : UpTo codec log offset records) :
    ∃ more, UpTo codec log (readLog codec log offset).2 (records ++ more) ∧
      (readLog codec log offset).1 = bindings more := by
  obtain ⟨bodies, hdecodes, hlog, hoffset⟩ := h.drop
  obtain ⟨bodies', hdecodes', hrest⟩ := exists_decodes codec (log.drop offset)
  refine ⟨_, ⟨bodies ++ bodies', List.rel_append hdecodes hdecodes', ?_, ?_⟩, rfl⟩
  · refine ⟨(scan maxLogRecordBytes codec.recordFromSlice (log.drop offset)).2, ?_⟩
    rw [List.flatMap_append, List.append_assoc, ← hrest, ← hlog]
  · have hlength := congrArg List.length hrest
    rw [List.length_append] at hlength
    rw [List.flatMap_append, List.length_append, ← hoffset]
    simp only [readLog]
    omega

lemma readLog_snd_le (log : Bytes) : (readLog codec log 0).2 ≤ log.length := by
  simp only [readLog, List.drop_zero]
  omega

lemma UpTo.le_readLog (h : UpTo codec log offset records) : offset ≤ (readLog codec log 0).2 := by
  rw [readLog_of_upTo h]
  exact Nat.le_add_right _ _

/-! ## Appending -/

/-- The length that the writer remembers is that of a log of whole records. -/
def Known (codec : Codec E) (log : Bytes) (known : Option ℕ) : Prop :=
  ∀ n ∈ known, n = log.length ∧ (readLog codec log 0).2 = log.length

/-- What is left of the log are its whole records, all of them. -/
lemma Known.soundLog_eq {known : Option ℕ} (h : Known codec log known) :
    soundLog codec log known = log.take (readLog codec log 0).2 := by
  unfold soundLog
  split_ifs with hcut
  · rfl
  · by_cases hlength : log.length = 0
    · rw [List.eq_nil_of_length_eq_zero hlength, List.take_nil]
    · have hknown : known = some log.length := by
        by_contra hne
        exact hcut ⟨Nat.pos_of_ne_zero hlength, hne⟩
      rw [(h _ hknown).2, List.take_length]

lemma Known.exists_soundLog {known : Option ℕ} (h : Known codec log known) :
    ∃ bodies records, Decodes codec bodies records ∧
      soundLog codec log known = bodies.flatMap frame ∧ bindings records = (readLog codec log 0).1 := by
  obtain ⟨more, ⟨bodies, hdecodes, hprefix, hoffset⟩, hmore⟩ := (upTo_zero log).exists_readLog
  refine ⟨bodies, more, hdecodes, ?_, hmore.symm⟩
  rw [h.soundLog_eq, hoffset]
  exact (List.prefix_iff_eq_take.mp hprefix).symm

lemma Known.upTo_soundLog {known : Option ℕ} (h : Known codec log known) (hupTo : UpTo codec log offset records) :
    UpTo codec (soundLog codec log known) offset records := by
  refine hupTo.of_take ?_
  rw [h.soundLog_eq]
  exact List.take_prefix_take_left hupTo.le_readLog

/-- The entries of which a record is written. -/
def logged (codec : Codec E) (entries : Entries E) : Entries E :=
  entries.filter fun entry => (recordBody codec entry).isSome

def logRecord (entry : String × E) : LogRecord E := ⟨cacheVersion, entry.1, entry.2⟩

lemma recordBody_eq_some {entry : String × E} {body : Bytes} (h : recordBody codec entry = some body) :
    Reads maxLogRecordBytes codec.recordFromSlice body (logRecord entry) := by
  obtain ⟨hbody, hmax⟩ := Option.filter_eq_some_iff.mp h
  have hmax : body.length ≤ maxLogRecordBytes := of_decide_eq_true hmax
  exact ⟨hmax, Nat.lt_of_le_of_lt hmax (by decide), codec.recordFromSlice_toVec _ _ hbody⟩

lemma decodes_logged (codec : Codec E) (entries : Entries E) :
    Decodes codec (entries.filterMap (recordBody codec)) ((logged codec entries).map logRecord) := by
  induction entries with
  | nil => exact .nil
  | cons entry entries ih =>
    cases h : recordBody codec entry with
    | none => simpa [logged, h] using ih
    | some body =>
      have hread := recordBody_eq_some h
      simpa [logged, h] using And.intro hread ih

lemma logged_eq_nil {entries : Entries E} (h : logRecords codec entries = []) : logged codec entries = [] := by
  refine List.filter_eq_nil_iff.mpr fun entry hentry hsome => ?_
  obtain ⟨body, hbody⟩ := Option.isSome_iff_exists.mp hsome
  have hframe := List.flatMap_eq_nil_iff.mp h body (List.mem_filterMap.mpr ⟨entry, hentry, hbody⟩)
  have hlength := congrArg List.length hframe
  rw [length_frame, List.length_nil] at hlength
  omega

lemma bindings_logRecord (entries : Entries E) : bindings (entries.map logRecord) = entries.reverse := by
  have hbinding : (LogRecord.binding? ∘ logRecord : String × E → Option (String × E)) = some := by
    funext entry
    simp [LogRecord.binding?, logRecord]
  rw [bindings, List.filterMap_map, hbinding, List.filterMap_some]

/-- **A part of an append** is read as the first of its entries, over what was read before; a whole one is read
as a whole. -/
lemma exists_readLog_append {known : Option ℕ} (h : Known codec log known) (entries : Entries E)
    (written : ℕ) : ∃ k,
      (readLog codec (soundLog codec log known ++ (logRecords codec entries).take written) 0).1 =
        ((logged codec entries).take k).reverse ++ (readLog codec log 0).1 ∧
      ((logRecords codec entries).length ≤ written → (logged codec entries).length ≤ k ∧
        (readLog codec (soundLog codec log known ++ (logRecords codec entries).take written) 0).2 =
          (soundLog codec log known ++ (logRecords codec entries).take written).length) := by
  obtain ⟨bodies, records, hdecodes, hsound, hbindings⟩ := h.exists_soundLog
  have hupTo (rest : Bytes) : UpTo codec (soundLog codec log known ++ rest)
      (bodies.flatMap frame).length records :=
    ⟨bodies, hdecodes, by rw [hsound]; exact List.prefix_append _ _, rfl⟩
  by_cases hwritten : (logRecords codec entries).length ≤ written
  · rw [List.take_of_length_le hwritten]
    have hall : UpTo codec (soundLog codec log known ++ logRecords codec entries)
        (soundLog codec log known ++ logRecords codec entries).length
        (records ++ (logged codec entries).map logRecord) := by
      refine ⟨bodies ++ entries.filterMap (recordBody codec),
        List.rel_append hdecodes (decodes_logged codec entries), ?_, ?_⟩
      · rw [List.flatMap_append, hsound]
        exact List.prefix_rfl
      · rw [List.flatMap_append, hsound]
        rfl
    have hend : readLog codec (soundLog codec log known ++ logRecords codec entries)
        (soundLog codec log known ++ logRecords codec entries).length =
        ([], (soundLog codec log known ++ logRecords codec entries).length) := by
      simp only [readLog, List.drop_length]
      rfl
    refine ⟨(logged codec entries).length, ?_, fun _ => ⟨Nat.le_refl _, ?_⟩⟩
    · rw [readLog_of_upTo hall, hend, bindings_append, bindings_logRecord, hbindings, List.take_length]
      rfl
    · rw [readLog_of_upTo hall, hend]
  · obtain ⟨k, tail, hscan, -, -⟩ := scan_prefix (decodes_logged codec entries)
      (List.take_prefix written (logRecords codec entries))
    refine ⟨k, ?_, fun hle => absurd hle hwritten⟩
    rw [readLog_of_upTo (hupTo _), hbindings]
    simp only [readLog, hsound, List.drop_left, hscan, ← List.map_take, bindings_logRecord]

/-! ## What is found -/

lemma found_eq (files : Files) (hash : String) : found codec files hash =
    ((readLog codec files.log 0).1.lookup hash).or ((readBase codec files.base).lookup hash) := by
  simp only [found, ParsedCache.load, ParsedCache.loaded, ParsedCache.get, List.lookup_append]

/-- A base that is written is read as it was written. -/
lemma lookup_readBase_writeBase {files files' : Files} {entries : Entries E}
    (h : writeBase codec files entries = some files') (hash : String) :
    (readBase codec files'.base).lookup hash = entries.lookup hash := by
  obtain ⟨data, hdata, rfl⟩ := Option.map_eq_some_iff.mp h
  obtain ⟨file, hfile, hversion, hentries⟩ := codec.fileFromSlice_toVec _ _ hdata
  simp only [readBase, hfile, hversion, if_pos]
  exact hentries hash

end ParseCache
end NestWeaver
