import NestWeaver.Engine.ParsedCache.Reading

/-!
# No parse is lost but by an eviction

A cache that knows the version of the base agrees with the records before its offset (`InStep`), whatever the
writer and other readers do, as long as no cache is read between the two writes of a save (`Quiet`): the log
that it has read is gone after the second, and one that grows to the same length is taken for it.
-/

set_option linter.all false

namespace NestWeaver
namespace ParseCache

open Transition

variable {ι E : Type} [DecidableEq ι] {codec : Codec E} {files : Files} {cache : ParsedCache E}
  {records : List (LogRecord E)}

/-! ## One cache -/

/-- What the records are applied to, and what they make of it. -/
def applied (codec : Codec E) (files : Files) (records : List (LogRecord E)) : Entries E :=
  bindings records ++ readBase codec files.base

/-- The cache has seen what the base and the records before its offset hold, and if it is only read it has just
that. -/
structure InStep (codec : Codec E) (reads : Prop) (files : Files) (cache : ParsedCache E)
    (records : List (LogRecord E)) : Prop where
  upTo : UpTo codec files.log cache.logOffset records
  seen : ∀ hash, ((applied codec files records).lookup hash).isSome → hash ∈ cache.loadedKeys
  same : reads → ∀ hash, cache.get hash = (applied codec files records).lookup hash

variable {reads : Prop}

lemma InStep.found_eq (h : InStep codec reads files cache records) (hash : String) :
    found codec files hash = ((readLog codec files.log cache.logOffset).1.lookup hash).or
      ((applied codec files records).lookup hash) := by
  rw [ParseCache.found_eq, readLog_of_upTo h.upTo, applied, List.lookup_append, List.lookup_append,
    Option.or_assoc]

lemma inStep_loaded (codec : Codec E) (reads : Prop) (files : Files) : ∃ records,
    InStep codec reads files (.loaded codec files.identity (readBase codec files.base) files.log) records := by
  obtain ⟨records, hupTo, hrecords⟩ := (upTo_zero files.log).exists_readLog
  refine ⟨records, hupTo, fun hash hsome => ?_, fun _ hash => ?_⟩
  · rw [applied, ← hrecords] at hsome
    exact mem_map_fst.mpr hsome
  · rw [applied, ← hrecords]
    rfl

lemma InStep.catchUp (h : InStep codec reads files cache records) : ∃ records',
    InStep codec reads files (cache.catchUp codec files.log) records' := by
  obtain ⟨more, hupTo, hmore⟩ := h.upTo.exists_readLog
  have happlied : applied codec files (records ++ more) = bindings more ++ applied codec files records := by
    rw [applied, bindings_append, List.append_assoc]
    rfl
  refine ⟨records ++ more, hupTo, fun hash hsome => ?_, fun hreads hash => ?_⟩
  · rw [happlied, List.lookup_append, Option.isSome_or, Bool.or_eq_true] at hsome
    obtain hnew | hold := hsome
    · rw [← hmore] at hnew
      exact List.mem_append_left _ (mem_map_fst.mpr hnew)
    · exact List.mem_append_right _ (h.seen hash hold)
  · rw [happlied, List.lookup_append, ← h.same hreads hash, ← hmore]
    exact List.lookup_append

/-- A log that is read again has what was read of it. -/
lemma InStep.relog (h : InStep codec reads files cache records) {log : Bytes}
    (hupTo : UpTo codec log cache.logOffset records) :
    InStep codec reads { files with log := log } cache records :=
  ⟨hupTo, h.seen, h.same⟩

/-! ## All caches -/

/-- The thread whose copy is changed. -/
def Action.edits : Action ι E → Option ι
  | .insert i _ _ | .retainHashes i _ => some i
  | _ => none

lemma base_eq_none (h : none = files.identity) : readBase codec files.base = [] := by
  rw [Option.map_eq_none_iff.mp h.symm]
  rfl

namespace System

/-- No cache is read between the two writes of a save. -/
def Quiet (sys : System ι E) (a : Action ι E) : Prop :=
  a = .removeLog true → ∀ i cache, (sys.phase i).cache? = some cache → cache.base ≠ sys.files.identity

/-- What holds of the phase of a thread. -/
structure Follows (codec : Codec E) (reads : Prop) (files : Files) (phase : Phase E) : Prop where
  held : ∀ n ∈ phase.base?, n < files.versions
  reading : ∀ base entries, phase = .readingLog base entries → base = files.identity →
    entries = readBase codec files.base
  inStep : ∀ cache, phase.cache? = some cache → cache.base = files.identity →
    ∃ records, InStep codec reads files cache records

structure Inv (codec : Codec E) (reads : ι → Prop) (sys : System ι E) : Prop where
  known : Known codec sys.files.log sys.validLogLen
  current : ∀ n ∈ sys.files.identity, n < sys.files.versions
  follows : ∀ i, Follows codec (reads i) sys.files (sys.phase i)

variable {sys sys' : System ι E} {reads : ι → Prop} {i : ι} {phase : Phase E}

lemma follows_absent {reads : Prop} : Follows codec reads files .absent where
  held _ hn := by cases hn
  reading _ _ hphase := by cases hphase
  inStep _ hcache := by cases hcache

omit [DecidableEq ι] in
lemma inv_initial : Inv codec reads (initial : System ι E) where
  known _ hn := by cases hn
  current _ hn := by cases hn
  follows _ := follows_absent

lemma Inv.put (hinv : Inv codec reads sys) (h : Follows codec (reads i) sys.files phase) :
    Inv codec reads (sys.put i phase) where
  known := hinv.known
  current := hinv.current
  follows j := by
    by_cases hj : j = i
    · subst hj
      simpa [System.put] using h
    · simpa [System.put, hj] using hinv.follows j

lemma follows_holding {cache : ParsedCache E} (hheld : ∀ n ∈ cache.base, n < files.versions) {reads : Prop}
    (h : cache.base = files.identity → ∃ records, InStep codec reads files cache records) :
    Follows codec reads files (.holding cache) where
  held := hheld
  reading _ _ hphase := by cases hphase
  inStep _ hcache := by
    obtain rfl := Option.some.inj hcache
    exact h

omit [DecidableEq ι] in
/-- The log changes behind what has been read of it. -/
lemma Inv.relog (hinv : Inv codec reads sys) {log : Bytes} {known : Option ℕ} (hknown : Known codec log known)
    (hlog : ∀ i cache records, (sys.phase i).cache? = some cache → cache.base = sys.files.identity →
      UpTo codec sys.files.log cache.logOffset records → UpTo codec log cache.logOffset records)
    (writer : Option Writer) : Inv codec reads
      { sys with files := { sys.files with log := log }, validLogLen := known, writer := writer } where
  known := hknown
  current := hinv.current
  follows i := by
    obtain ⟨hheld, hreading, hinStep⟩ := hinv.follows i
    refine ⟨hheld, hreading, fun cache hcache hbase => ?_⟩
    obtain ⟨records, hrecords⟩ := hinStep cache hcache hbase
    exact ⟨records, hrecords.relog (hlog i cache records hcache hbase hrecords.upTo)⟩

omit [DecidableEq ι] in
/-- No cache knows a base that has just been written. -/
lemma Inv.rebase (hinv : Inv codec reads sys) {entries : Entries E} {files : Files}
    (h : writeBase codec sys.files entries = some files) (writer : Option Writer) :
    Inv codec reads { sys with files := files, writer := writer } := by
  obtain ⟨data, -, rfl⟩ := Option.map_eq_some_iff.mp h
  have hnew (i : ι) : (sys.phase i).base? ≠ some sys.files.versions := fun hbase =>
    absurd ((hinv.follows i).held _ hbase) (Nat.lt_irrefl _)
  refine ⟨hinv.known, fun n hn => ?_, fun i => ⟨fun n hn => ?_, fun base entries hphase hbase => ?_,
    fun cache hcache hbase => ?_⟩⟩
  · obtain rfl := Option.some.inj hn
    exact Nat.lt_succ_self _
  · exact Nat.lt_succ_of_lt ((hinv.follows i).held n hn)
  · refine absurd ?_ (hnew i)
    rw [hphase]
    exact hbase
  · refine absurd ?_ (hnew i)
    cases hphase : sys.phase i with
    | holding c | catchingUp c =>
      rw [hphase] at hcache
      obtain rfl := Option.some.inj hcache
      exact hbase
    | absent | loading | readingLog =>
      rw [hphase] at hcache
      cases hcache

omit [DecidableEq ι] in
lemma Inv.replaceBase (hinv : Inv codec reads sys) (entries : Entries E) (outcome : Outcome) :
    Inv codec reads (sys.replaceBase codec entries outcome) := by
  have hsame (writer : Option Writer) : Inv codec reads { sys with writer := writer } :=
    ⟨hinv.known, hinv.current, hinv.follows⟩
  cases outcome with
  | unwritten => exact hsame none
  | unreported =>
    cases h : writeBase codec sys.files entries with
    | none => simpa [System.replaceBase, h] using hsame none
    | some files => simpa [System.replaceBase, h] using hinv.rebase h none
  | replaced =>
    cases h : writeBase codec sys.files entries with
    | none => simpa [System.replaceBase, h] using hsame none
    | some files => simpa [System.replaceBase, h] using hinv.rebase h (some .removing)

omit [DecidableEq ι] in
lemma Inv.appendEntries (hinv : Inv codec reads sys) (entries : Entries E) (written : ℕ) :
    Inv codec reads (sys.appendEntries codec entries written) := by
  obtain ⟨k, -, hwhole⟩ := exists_readLog_append hinv.known entries written
  have hlog (i : ι) (cache : ParsedCache E) (records : List (LogRecord E))
      (_ : (sys.phase i).cache? = some cache) (_ : cache.base = sys.files.identity)
      (hupTo : UpTo codec sys.files.log cache.logOffset records) :
      UpTo codec (soundLog codec sys.files.log sys.validLogLen ++ (logRecords codec entries).take written)
        cache.logOffset records :=
    (hinv.known.upTo_soundLog hupTo).mono (List.prefix_append _ _)
  by_cases hnil : logRecords codec entries = []
  · simpa [System.appendEntries, hnil] using hinv
  · by_cases hwritten : (logRecords codec entries).length ≤ written
    · simp only [System.appendEntries, if_neg hnil, if_pos hwritten]
      refine hinv.relog (fun n hn => ?_) hlog _
      obtain rfl := Option.some.inj hn
      exact ⟨rfl, (hwhole hwritten).2⟩
    · simp only [System.appendEntries, if_neg hnil, if_neg hwritten]
      exact hinv.relog (fun n hn => (by cases hn)) hlog _

/-- **Caches stay in step**, whatever is done next. -/
theorem Inv.step {a : Action ι E} (hinv : Inv codec reads sys) (hquiet : Quiet sys a)
    (hreads : ∀ i ∈ a.edits, ¬reads i) (h : sys.step codec a = some sys') : Inv codec reads sys' := by
  have hrelog {known : Option ℕ} (hknown : Known codec sys.files.log known) (writer : Option Writer) :
      Inv codec reads { sys with validLogLen := known, writer := writer } :=
    ⟨hknown, hinv.current, hinv.follows⟩
  cases a with
  | empty i =>
    obtain rfl := Option.some.inj h
    refine hinv.put (follows_holding (fun n hn => by cases hn) fun hbase => ⟨[], upTo_zero _, ?_, fun _ _ => ?_⟩)
    · intro hash hsome
      rw [applied, base_eq_none hbase] at hsome
      cases hsome
    · rw [applied, base_eq_none hbase]
      rfl
  | drop i =>
    obtain rfl := Option.some.inj h
    exact hinv.put follows_absent
  | load i =>
    simp only [System.step] at h
    split at h
    · obtain rfl := Option.some.inj h
      exact hinv.put ⟨hinv.current, fun _ _ hloading => (by cases hloading), fun _ hcache => (by cases hcache)⟩
    · cases h
  | readBase i =>
    simp only [System.step] at h
    split at h
    · rename_i base hphase
      obtain rfl := Option.some.inj h
      refine hinv.put ⟨fun n hn => ?_, fun base' entries hreading _ => ?_, fun _ hcache => (by cases hcache)⟩
      · exact (hinv.follows i).held n (by rw [hphase]; exact hn)
      · cases hreading
        rfl
    · cases h
  | readLog i =>
    simp only [System.step] at h
    split at h
    · rename_i base entries hphase
      obtain rfl := Option.some.inj h
      refine hinv.put (follows_holding (fun n hn => ?_) fun hbase => ?_)
      · exact (hinv.follows i).held n (by rw [hphase]; exact hn)
      · obtain rfl : base = sys.files.identity := hbase
        rw [(hinv.follows i).reading _ _ hphase rfl]
        exact inStep_loaded codec _ _
    · cases h
  | refresh i =>
    simp only [System.step] at h
    split at h
    · rename_i cache hphase
      obtain rfl := Option.some.inj h
      split_ifs
      · exact hinv.put follows_absent
      · obtain ⟨hheld, -, hinStep⟩ := hinv.follows i
        rw [hphase] at hheld hinStep
        exact hinv.put ⟨hheld, fun _ _ hreading => (by cases hreading), hinStep⟩
    · cases h
  | catchUp i =>
    simp only [System.step] at h
    split at h
    · rename_i cache hphase
      obtain rfl := Option.some.inj h
      obtain ⟨hheld, -, hinStep⟩ := hinv.follows i
      rw [hphase] at hheld hinStep
      refine hinv.put (follows_holding ?_ fun hbase => ?_)
      · exact hheld
      · obtain ⟨records, hrecords⟩ := hinStep cache rfl hbase
        exact hrecords.catchUp
    · cases h
  | insert i contentHash result =>
    simp only [System.step] at h
    split at h
    · rename_i cache hphase
      obtain rfl := Option.some.inj h
      obtain ⟨hheld, -, hinStep⟩ := hinv.follows i
      rw [hphase] at hheld hinStep
      refine hinv.put (follows_holding ?_ fun hbase => ?_)
      · exact hheld
      · obtain ⟨records, hupTo, hseen, -⟩ := hinStep cache rfl hbase
        exact ⟨records, hupTo, hseen, fun hi => absurd hi (hreads i rfl)⟩
    · cases h
  | retainHashes i liveHashes =>
    simp only [System.step] at h
    split at h
    · rename_i cache hphase
      obtain rfl := Option.some.inj h
      obtain ⟨hheld, -, hinStep⟩ := hinv.follows i
      rw [hphase] at hheld hinStep
      refine hinv.put (follows_holding ?_ fun hbase => ?_)
      · exact hheld
      · obtain ⟨records, hupTo, hseen, -⟩ := hinStep cache rfl hbase
        exact ⟨records, hupTo, hseen, fun hi => absurd hi (hreads i rfl)⟩
    · cases h
  | save i outcome =>
    simp only [System.step] at h
    split at h
    · obtain rfl := Option.some.inj h
      exact hinv.replaceBase _ outcome
    · cases h
  | append entries written =>
    simp only [System.step] at h
    split at h
    · obtain rfl := Option.some.inj h
      exact hinv.appendEntries entries written
    · cases h
  | compact outcome =>
    simp only [System.step] at h
    split at h
    · obtain rfl := Option.some.inj h
      exact hinv.replaceBase _ outcome
    · cases h
  | removeLog removed =>
    simp only [System.step] at h
    split at h
    · obtain rfl := Option.some.inj h
      cases removed with
      | false => exact hrelog (fun n hn => by cases hn) none
      | true =>
        refine hinv.relog (fun n hn => by cases hn) (fun j cache records hcache hbase _ => ?_) none
        exact absurd hbase (hquiet rfl j cache hcache)
    · cases h
  | crash =>
    obtain rfl := Option.some.inj h
    exact hrelog (fun n hn => by cases hn) none

end System

end ParseCache
end NestWeaver
