import NestWeaver.Engine.ParsedCache.Files
import NestWeaver.Framework.Transition

/-!
# Caches over the same files

Threads load the cache, keep it and refresh it, and change their copies, while the writer saves and appends.
Writers hold `WRITE_LOCK` and the write lease, so there is one at a time; readers hold nothing, and read one
file after the other.  The process that writes ends at any moment, and a write may end early.
-/

set_option linter.all false

namespace NestWeaver
namespace ParseCache

open Transition

/-- Where a thread is with its cache. -/
inductive Phase (E : Type)
  | absent
  /-- `load`: the identity of the base is known. -/
  | loading (base : Option ℕ)
  /-- `load`: the base is read. -/
  | readingLog (base : Option ℕ) (entries : Entries E)
  | holding (cache : ParsedCache E)
  /-- `refresh`: the cache was not stale. -/
  | catchingUp (cache : ParsedCache E)

namespace Phase

variable {E : Type}

def cache? : Phase E → Option (ParsedCache E)
  | holding cache | catchingUp cache => some cache
  | _ => none

def held? : Phase E → Option (ParsedCache E)
  | holding cache => some cache
  | _ => none

lemma held?_eq_some {phase : Phase E} {cache : ParsedCache E} :
    phase.held? = some cache ↔ phase = .holding cache := by
  cases phase <;> simp [held?]

/-- The version of the base that is known. -/
def base? : Phase E → Option ℕ
  | absent => none
  | loading base | readingLog base _ => base
  | holding cache | catchingUp cache => cache.base

end Phase

/-- What the owner of `WRITE_LOCK` does next. -/
inductive Writer
  /-- The log has outgrown the base. -/
  | compacting
  /-- The base is replaced, and the log still there. -/
  | removing
  deriving DecidableEq, Repr

/-- How `write_base` ends: a replacement may be reported as failed. -/
inductive Outcome
  | unwritten | unreported | replaced
  deriving DecidableEq, Repr

structure System (ι E : Type) where
  files : Files
  /-- `VALID_LOG_LEN`. -/
  validLogLen : Option ℕ
  writer : Option Writer
  phase : ι → Phase E

inductive Action (ι E : Type)
  | empty (i : ι)
  | drop (i : ι)
  | load (i : ι)
  | readBase (i : ι)
  | readLog (i : ι)
  | refresh (i : ι)
  | catchUp (i : ι)
  | insert (i : ι) (contentHash : String) (result : E)
  | retainHashes (i : ι) (liveHashes : List String)
  | save (i : ι) (outcome : Outcome)
  /-- `append_entries`, of which the first bytes are written. -/
  | append (entries : Entries E) (written : ℕ)
  | compact (outcome : Outcome)
  | removeLog (removed : Bool)
  /-- The process of the writer ends. -/
  | crash

section

variable {ι E : Type} [DecidableEq ι] (codec : Codec E)

namespace System

def initial : System ι E := ⟨⟨none, [], 0⟩, none, none, fun _ => .absent⟩

def put (sys : System ι E) (i : ι) (phase : Phase E) : System ι E :=
  { sys with phase := Function.update sys.phase i phase }

/-- `write_base`, and the state in which the writer goes on. -/
def replaceBase (sys : System ι E) (entries : Entries E) : Outcome → System ι E
  | .unwritten => { sys with writer := none }
  | .unreported => { sys with files := (writeBase codec sys.files entries).getD sys.files, writer := none }
  | .replaced =>
    match writeBase codec sys.files entries with
    | none => { sys with writer := none }
    | some files => { sys with files := files, writer := some .removing }

def appendEntries (sys : System ι E) (entries : Entries E) (written : ℕ) : System ι E :=
  let data := logRecords codec entries
  if data = [] then sys
  else
    let log := soundLog codec sys.files.log sys.validLogLen ++ data.take written
    let files := { sys.files with log := log }
    if data.length ≤ written then
      { sys with
        files := files
        validLogLen := some log.length
        writer := if outgrown files then some .compacting else none }
    else { sys with files := files, validLogLen := none }

def step (sys : System ι E) : Action ι E → Option (System ι E)
  | .empty i => some (sys.put i (.holding ⟨[], [], none, 0⟩))
  | .drop i => some (sys.put i .absent)
  | .load i =>
    match sys.phase i with
    | .absent => some (sys.put i (.loading sys.files.identity))
    | _ => none
  | .readBase i =>
    match sys.phase i with
    | .loading base => some (sys.put i (.readingLog base (ParseCache.readBase codec sys.files.base)))
    | _ => none
  | .readLog i =>
    match sys.phase i with
    | .readingLog base entries => some (sys.put i (.holding (.loaded codec base entries sys.files.log)))
    | _ => none
  | .refresh i =>
    match sys.phase i with
    | .holding cache => some (sys.put i (if cache.stale sys.files then .absent else .catchingUp cache))
    | _ => none
  | .catchUp i =>
    match sys.phase i with
    | .catchingUp cache => some (sys.put i (.holding (cache.catchUp codec sys.files.log)))
    | _ => none
  | .insert i contentHash result =>
    match sys.phase i with
    | .holding cache => some (sys.put i (.holding (cache.insert contentHash result)))
    | _ => none
  | .retainHashes i liveHashes =>
    match sys.phase i with
    | .holding cache => some (sys.put i (.holding (cache.retainHashes liveHashes)))
    | _ => none
  | .save i outcome =>
    match sys.phase i, sys.writer with
    | .holding cache, none => some (sys.replaceBase codec (cache.merged codec sys.files) outcome)
    | _, _ => none
  | .append entries written =>
    match sys.writer with
    | none => some (sys.appendEntries codec entries written)
    | some _ => none
  | .compact outcome =>
    match sys.writer with
    | some .compacting =>
      some (sys.replaceBase codec (ParsedCache.load codec sys.files).entries outcome)
    | _ => none
  | .removeLog removed =>
    match sys.writer with
    | some .removing =>
      some
        { sys with
          files := { sys.files with log := if removed then [] else sys.files.log }
          validLogLen := none
          writer := none }
    | _ => none
  | .crash => some { sys with validLogLen := none, writer := none }

end System

end

/-! ## A small cache -/

namespace Sample

def code? : String → Option UInt8
  | "a" => some 97
  | "b" => some 98
  | _ => none

def name (c : UInt8) : String := if c = 97 then "a" else "b"

lemma name_code {hash : String} {c : UInt8} (h : code? hash = some c) : name c = hash := by
  unfold code? at h
  split at h <;> first | (obtain rfl := Option.some.inj h; rfl) | cases h

def pairs : Bytes → Entries UInt8
  | c :: entry :: rest => (name c, entry) :: pairs rest
  | _ => []

def pairBytes (entries : Entries UInt8) : Bytes :=
  entries.flatMap fun entry => [(code? entry.1).getD 0, entry.2]

lemma pairs_pairBytes {entries : Entries UInt8} (h : ∀ entry ∈ entries, (code? entry.1).isSome) :
    pairs (pairBytes entries) = entries := by
  induction entries with
  | nil => rfl
  | cons entry entries ih =>
    obtain ⟨hentry, hentries⟩ := List.forall_mem_cons.mp h
    obtain ⟨c, hc⟩ := Option.isSome_iff_exists.mp hentry
    have hpairs : pairs (pairBytes (entry :: entries)) =
        (name ((code? entry.1).getD 0), entry.2) :: pairs (pairBytes entries) := rfl
    rw [hpairs, ih hentries, hc, Option.getD_some, name_code hc]

def fileToVec (file : ParsedCacheFile UInt8) : Option Bytes :=
  if file.version = cacheVersion ∧ ∀ entry ∈ file.entries, (code? entry.1).isSome then
    some (pairBytes file.entries)
  else none

lemma pairs_fileToVec (file : ParsedCacheFile UInt8) (data : Bytes) (h : fileToVec file = some data) :
    ∃ file', some (⟨cacheVersion, pairs data⟩ : ParsedCacheFile UInt8) = some file' ∧
      file'.version = file.version ∧ ∀ hash, file'.entries.lookup hash = file.entries.lookup hash := by
  obtain ⟨⟨hversion, hnames⟩, hdata⟩ := Option.ite_none_right_eq_some.mp h
  obtain rfl := Option.some.inj hdata
  exact ⟨_, rfl, hversion.symm, fun hash => by rw [pairs_pairBytes hnames]⟩

def recordToVec (record : LogRecord UInt8) : Option Bytes :=
  if record.version = cacheVersion then (code? record.hash).map fun c => [c, record.entry] else none

def recordFromSlice : Bytes → Option (LogRecord UInt8)
  | [c, entry] => some ⟨cacheVersion, name c, entry⟩
  | _ => none

lemma recordFromSlice_toVec (record : LogRecord UInt8) (body : Bytes) (h : recordToVec record = some body) :
    recordFromSlice body = some record := by
  obtain ⟨hversion, hbody⟩ := Option.ite_none_right_eq_some.mp h
  obtain ⟨c, hc, rfl⟩ := Option.map_eq_some_iff.mp hbody
  rw [recordFromSlice, name_code hc, ← hversion]

/-- Two hashes, and a byte for a parse. -/
def codec : Codec UInt8 where
  fileToVec := fileToVec
  fileFromSlice data := some ⟨cacheVersion, pairs data⟩
  fileFromSlice_toVec := pairs_fileToVec
  recordToVec := recordToVec
  recordFromSlice := recordFromSlice
  recordFromSlice_toVec := recordFromSlice_toVec

def result (acts : List (Action (Fin 2) UInt8)) : Option (System (Fin 2) UInt8) :=
  run (System.step codec) System.initial acts

end Sample

end ParseCache
end NestWeaver
