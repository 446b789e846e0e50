import Mathlib.Data.List.Basic
import NestWeaver.Framework.Transition

/-!
# The directory of a regex shard

`crates/nestweaver-store/src/regex_index.rs`, on the directory of one scope: the shard generations,
the selector `CURRENT` and the tombstone `RETIRED`.  A state is what is on disk and where the
operation that holds the maintenance lock stands; an action is one durable step of it.  The
recursive removals go through a directory in any order, and an operation can end at any point, by a
crash or by a failed step.

The checksum of a selector and the hash of a scope uid are parameters, and the index of a generation
is what reading it back gives.
-/

set_option linter.all false

namespace NestWeaver
namespace Shard

def regexIndexSchemaVersion : ℕ := 6
def regexTokenizerFingerprint : String := "nestweaver-unicode-scalar-lowercase-distinct-trigram-v1"

structure ShardMetadata where
  schemaVersion : ℕ
  tokenizerFingerprint : String
  brainUuid : String
  publicationUuid : String
  sourceGraphGeneration : ℕ
  scopeUid : String
  scopeEpoch : ℕ
  candidateCount : ℕ
  candidateDigest : String
  deriving DecidableEq

/-- The content of `CURRENT`. -/
structure CurrentPointer where
  version : ℕ
  generation : String
  metadata : ShardMetadata
  checksum : String
  deriving DecidableEq

/-- A generation directory. -/
structure Generation where
  name : String
  /-- The metadata and the number of candidates, when the index opens. -/
  index : Option (ShardMetadata × ℕ)
  deriving DecidableEq

/-- A generation that was built outside the scope, with its selector. -/
structure Prepared where
  index : ShardMetadata × ℕ
  pointer : CurrentPointer
  deriving DecidableEq

def Prepared.generation (p : Prepared) : Generation := ⟨p.pointer.generation, some p.index⟩

/-- Where the operation stands that holds the lock. -/
inductive Operation
  | idle
  /-- `publish_prepared` before its generation is renamed into place, after that, and after the
  tombstone is cleared. -/
  | staged (p : Prepared)
  | renamed (p : Prepared)
  | cleared (p : Prepared)
  /-- `try_retire_scope` after the tombstone. -/
  | retiring
  /-- `garbage_collect` in the removal of the scope, or of the generations that are not selected. -/
  | removing
  | sweeping (selected : String)
  deriving DecidableEq

structure Scope where
  present : Bool
  retired : Bool
  current : Option CurrentPointer
  generations : List Generation
  operation : Operation
  prepared : List Prepared
  /-- A history: a tombstone was written, and no generation has been published since. -/
  dropped : Bool
  deriving DecidableEq

def Scope.init : Scope := ⟨false, false, none, [], .idle, [], false⟩

section Code

variable (checksum : ℕ → String → ShardMetadata → String) (scopeHash : String → String)
  (entryHash : String)

/-! ## Selectors -/

def CurrentPointer.new (generation : String) (metadata : ShardMetadata) : CurrentPointer :=
  ⟨1, generation, metadata, checksum 1 generation metadata⟩

def CurrentPointer.validate (p : CurrentPointer) : Bool :=
  p.version = 1 && p.generation ≠ "" && !p.generation.contains '/' &&
    !p.generation.contains '\\' && p.generation ≠ "." && p.generation ≠ ".." &&
    p.checksum = checksum p.version p.generation p.metadata

def generationName (metadata : ShardMetadata) (uuid : String) : String :=
  toString metadata.scopeEpoch ++ "-" ++ String.ofList (metadata.candidateDigest.toList.take 16) ++
    "-" ++ uuid

/-! ## Preparation -/

/-- `prepare_replace_scope`. -/
def prepareReplaceScope (metadata : ShardMetadata) (documents : ℕ) (uuid : String) :
    Option Prepared :=
  if metadata.schemaVersion ≠ regexIndexSchemaVersion ∨
      metadata.tokenizerFingerprint ≠ regexTokenizerFingerprint ∨
      metadata.candidateCount ≠ documents then none
  else some ⟨(metadata, documents), .new checksum (generationName metadata uuid) metadata⟩

/-- `prepare_update_scope`; `documents` counts the candidates after the delta. -/
def prepareUpdateScope (s : Scope) (previous metadata : ShardMetadata) (documents : ℕ)
    (uuid : String) : Option Prepared :=
  if metadata.schemaVersion ≠ regexIndexSchemaVersion ∨
      metadata.tokenizerFingerprint ≠ regexTokenizerFingerprint ∨
      metadata.scopeUid ≠ previous.scopeUid then none
  else
    match s.current with
    | none => none
    | some pointer =>
      if pointer.metadata ≠ previous then none
      else
        match (s.generations.find? (·.name = pointer.generation)).bind (·.index) with
        | none => none
        | some (observed, _) =>
          if observed ≠ previous ∨ documents ≠ metadata.candidateCount then none
          else some ⟨(metadata, documents), .new checksum (generationName metadata uuid) metadata⟩

/-! ## Garbage collection -/

inductive MissingCurrentRecovery
  | empty
  | adopted (pointer : CurrentPointer)
  deriving DecidableEq

inductive RecoveryError
  | generations (count : ℕ)
  | unreadable
  | mismatch
  | hashCollision (scopeUid : String)
  | schema (version : ℕ) (fingerprint : String)
  deriving DecidableEq

/-- `recover_missing_current`: the generation that is left is selected. -/
def recoverMissingCurrent (generations : List Generation) :
    Except RecoveryError MissingCurrentRecovery :=
  match generations with
  | [] => .ok .empty
  | [g] =>
    match g.index with
    | none => .error .unreadable
    | some (metadata, count) =>
      if count ≠ metadata.candidateCount then .error .mismatch
      else if scopeHash metadata.scopeUid ≠ entryHash then .error (.hashCollision metadata.scopeUid)
      else if metadata.schemaVersion ≠ regexIndexSchemaVersion ∨
          metadata.tokenizerFingerprint ≠ regexTokenizerFingerprint then
        .error (.schema metadata.schemaVersion metadata.tokenizerFingerprint)
      else .ok (.adopted (.new checksum g.name metadata))
  | _ => .error (.generations generations.length)

/-- `garbage_collect` up to its first removal. -/
def Scope.collect (s : Scope) : Scope :=
  if !s.present then s
  else if s.retired then { s with operation := .removing }
  else
    match s.current with
    | none =>
      match recoverMissingCurrent checksum scopeHash entryHash s.generations with
      | .ok .empty => { s with operation := .removing }
      | .ok (.adopted pointer) => { s with current := some pointer }
      | .error _ => s
    | some pointer =>
      if pointer.validate checksum && scopeHash pointer.metadata.scopeUid = entryHash then
        { s with operation := .sweeping pointer.generation }
      else s

/-! ## Durable steps -/

inductive Action
  | prepareReplace (metadata : ShardMetadata) (documents : ℕ) (uuid : String)
  | prepareUpdate (previous metadata : ShardMetadata) (documents : ℕ) (uuid : String)
  | publish (p : Prepared)
  | rename
  | clearTombstone
  | select
  | retire
  | dropSelector
  | collect
  /-- A recursive removal unlinks a file at the top, one inside a generation, a generation that is
  empty, or the directory itself. -/
  | unlinkTombstone
  | unlinkSelector
  | unlinkInside (name : String)
  | removeGeneration (name : String)
  | removeRoot
  | sweptAll
  /-- The process dies, or a step fails and the operation returns its error. -/
  | crash
  | failed
  deriving DecidableEq

/-- The steps of a garbage collection, and its early ends. -/
def Action.Collects : Action → Prop
  | .collect | .unlinkTombstone | .unlinkSelector | .unlinkInside _ | .removeGeneration _
  | .removeRoot | .sweptAll | .crash | .failed => True
  | _ => False

/-- A generation loses a file: from then on it may not open. -/
def Scope.damage (s : Scope) (name : String) : Scope :=
  { s with
    generations := s.generations.map fun g => if g.name = name then { g with index := none } else g }

def Scope.without (s : Scope) (name : String) : Scope :=
  { s with generations := s.generations.filter (·.name ≠ name) }

def scopeStep (s : Scope) : Action → Option Scope
  | .prepareReplace metadata documents uuid =>
    if scopeHash metadata.scopeUid = entryHash then
      (prepareReplaceScope checksum metadata documents uuid).map fun p =>
        { s with prepared := p :: s.prepared }
    else none
  | .prepareUpdate previous metadata documents uuid =>
    if s.operation = .idle ∧ scopeHash metadata.scopeUid = entryHash then
      (prepareUpdateScope checksum s previous metadata documents uuid).map fun p =>
        { s with prepared := p :: s.prepared }
    else none
  | .publish p =>
    if s.operation = .idle ∧ p ∈ s.prepared then
      some { s with
        present := true
        operation := .staged p
        prepared := s.prepared.erase p }
    else none
  | .rename =>
    match s.operation with
    | .staged p =>
      -- a name that is taken fails the rename
      if p.pointer.generation ∈ s.generations.map (·.name) then none
      else
        some { s with
          generations := s.generations ++ [p.generation]
          operation := .renamed p
          dropped := false }
    | _ => none
  | .clearTombstone =>
    match s.operation with
    | .renamed p => some { s with retired := false, operation := .cleared p }
    | _ => none
  | .select =>
    match s.operation with
    | .cleared p => some { s with current := some p.pointer, operation := .idle }
    | _ => none
  | .retire =>
    if s.operation = .idle ∧ s.present then
      some { s with retired := true, operation := .retiring, dropped := true }
    else none
  | .dropSelector =>
    if s.operation = .retiring then some { s with current := none, operation := .idle } else none
  | .collect =>
    if s.operation = .idle then some (s.collect checksum scopeHash entryHash) else none
  | .unlinkTombstone =>
    if s.operation = .removing then some { s with retired := false } else none
  | .unlinkSelector =>
    if s.operation = .removing then some { s with current := none } else none
  | .unlinkInside name =>
    match s.operation with
    | .removing => some (s.damage name)
    | .sweeping selected => if name = selected then none else some (s.damage name)
    | _ => none
  | .removeGeneration name =>
    match s.operation with
    | .removing => some (s.without name)
    | .sweeping selected => if name = selected then none else some (s.without name)
    | _ => none
  | .removeRoot =>
    if s.operation = .removing ∧ ¬s.retired ∧ s.current = none ∧ s.generations = [] then
      some { s with present := false, operation := .idle }
    else none
  | .sweptAll =>
    match s.operation with
    | .sweeping _ => some { s with operation := .idle }
    | _ => none
  | .crash => some { s with operation := .idle, prepared := [] }
  | .failed => some { s with operation := .idle }

end Code

end Shard
end NestWeaver
