import NestWeaver.Framework.Framing

/-!
# The files of the parse cache

`crates/nestweaver-engine/src/parsed_cache.rs`: the parse of every indexed file under the hash of its content.
A base holds the cache of some moment, and a log the entries added since; loading reads both.  A cache that is
kept in memory knows the version of the base and how much of the log it has read.

The entries of a map are listed with the latest first.  MessagePack is given by `Codec`.
-/

set_option linter.all false

namespace NestWeaver
namespace ParseCache

abbrev Bytes := List UInt8

/-- The entries by content hash; of two entries for one hash the first counts. -/
abbrev Entries (E : Type) := List (String × E)

def cacheVersion : ℕ := 15

/-- `LOG_COMPACT_MIN_BYTES`. -/
def logCompactMinBytes : ℕ := 64 * 1024 * 1024

/-- `MAX_LOG_RECORD_BYTES`. -/
def maxLogRecordBytes : ℕ := 256 * 1024 * 1024

structure ParsedCacheFile (E : Type) where
  version : ℕ
  entries : Entries E

structure LogRecord (E : Type) where
  version : ℕ
  hash : String
  entry : E
  deriving DecidableEq

/-- `rmp_serde`.  The order of a map's entries is not kept. -/
structure Codec (E : Type) where
  fileToVec : ParsedCacheFile E → Option Bytes
  fileFromSlice : Bytes → Option (ParsedCacheFile E)
  fileFromSlice_toVec : ∀ file data, fileToVec file = some data → ∃ file', fileFromSlice data = some file' ∧
    file'.version = file.version ∧ ∀ hash, file'.entries.lookup hash = file.entries.lookup hash
  recordToVec : LogRecord E → Option Bytes
  recordFromSlice : Bytes → Option (LogRecord E)
  recordFromSlice_toVec : ∀ record body, recordToVec record = some body → recordFromSlice body = some record

/-! ## The files -/

/-- A base and its `FileIdentity`: every base that is written has one of its own. -/
structure Base where
  identity : ℕ
  data : Bytes

/-- No log is the empty log. -/
structure Files where
  base : Option Base
  log : Bytes
  /-- How many bases have been written. -/
  versions : ℕ

def Files.identity (files : Files) : Option ℕ := files.base.map Base.identity

variable {E : Type} (codec : Codec E)

def readBase : Option Base → Entries E
  | none => []
  | some base =>
    match codec.fileFromSlice base.data with
    | some file => if file.version = cacheVersion then file.entries else []
    | none => []

/-- What a record is applied as. -/
def LogRecord.binding? (record : LogRecord E) : Option (String × E) :=
  if record.version = cacheVersion then some (record.hash, record.entry) else none

/-- The latest first. -/
def bindings (records : List (LogRecord E)) : Entries E := (records.filterMap LogRecord.binding?).reverse

/-- The entries of the records from an offset on, and the offset after the last of them. -/
def readLog (log : Bytes) (offset : ℕ) : Entries E × ℕ :=
  let (records, rest) := Framing.scan maxLogRecordBytes codec.recordFromSlice (log.drop offset)
  (bindings records, offset + ((log.drop offset).length - rest.length))

/-! ## Caches -/

structure ParsedCache (E : Type) where
  entries : Entries E
  loadedKeys : List String
  base : Option ℕ
  logOffset : ℕ

namespace ParsedCache

def get (cache : ParsedCache E) (contentHash : String) : Option E := cache.entries.lookup contentHash

def insert (cache : ParsedCache E) (contentHash : String) (result : E) : ParsedCache E :=
  { cache with entries := (contentHash, result) :: cache.entries }

def retainHashes (cache : ParsedCache E) (liveHashes : List String) : ParsedCache E :=
  { cache with entries := cache.entries.filter fun entry => entry.1 ∈ liveHashes }

/-- The end of `load`: the log is read over what the base holds. -/
def loaded (base : Option ℕ) (entries : Entries E) (log : Bytes) : ParsedCache E :=
  let (added, logOffset) := readLog codec log 0
  let entries := added ++ entries
  ⟨entries, entries.map Prod.fst, base, logOffset⟩

def load (files : Files) : ParsedCache E := loaded codec files.identity (readBase codec files.base) files.log

/-- The base was replaced, or the log removed, since the cache was loaded. -/
def stale (cache : ParsedCache E) (files : Files) : Bool :=
  files.identity ≠ cache.base ∨ files.log.length < cache.logOffset

/-- The end of `refresh` where the cache is not stale. -/
def catchUp (cache : ParsedCache E) (log : Bytes) : ParsedCache E :=
  let (added, logOffset) := readLog codec log cache.logOffset
  { cache with
    entries := added ++ cache.entries
    loadedKeys := added.map Prod.fst ++ cache.loadedKeys
    logOffset := logOffset }

def refresh (cache : ParsedCache E) (files : Files) : ParsedCache E :=
  if cache.stale files then load codec files else cache.catchUp codec files.log

/-- What `save` keeps of another writer's entries. -/
def keeps (cache : ParsedCache E) (hash : String) : Bool :=
  hash ∉ cache.loadedKeys ∧ hash ∉ cache.entries.map Prod.fst

def newer (cache : ParsedCache E) (files : Files) : Entries E :=
  (if cache.stale files then (load codec files).entries else (readLog codec files.log cache.logOffset).1).filter
    fun entry => cache.keeps entry.1

/-- What `save` writes. -/
def merged (cache : ParsedCache E) (files : Files) : Entries E := cache.newer codec files ++ cache.entries

end ParsedCache

/-- What a process finds that loads the cache. -/
def found (files : Files) (hash : String) : Option E := (ParsedCache.load codec files).get hash

/-! ## Writing -/

/-- `write_base`, up to the replacement of the file. -/
def writeBase (files : Files) (entries : Entries E) : Option Files :=
  (codec.fileToVec ⟨cacheVersion, entries⟩).map fun data =>
    { files with base := some ⟨files.versions, data⟩, versions := files.versions + 1 }

/-- The body of the record of an entry, unless it cannot be serialized or is too long. -/
def recordBody (entry : String × E) : Option Bytes :=
  (codec.recordToVec ⟨cacheVersion, entry.1, entry.2⟩).filter fun body => body.length ≤ maxLogRecordBytes

/-- What `append_entries` writes. -/
def logRecords (entries : Entries E) : Bytes := (entries.filterMap (recordBody codec)).flatMap Framing.frame

/-- The log without a torn tail, unless its length is the one that this process has left it at. -/
def soundLog (log : Bytes) (known : Option ℕ) : Bytes :=
  if 0 < log.length ∧ known ≠ some log.length then log.take (readLog codec log 0).2 else log

/-- A log that has outgrown the base is folded into it. -/
def outgrown (files : Files) : Bool :=
  logCompactMinBytes < files.log.length ∧ files.base.elim 0 (·.data.length) < files.log.length

end ParseCache
end NestWeaver
