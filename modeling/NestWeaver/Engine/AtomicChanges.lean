import NestWeaver.Engine.Signature
import NestWeaver.Framework.MapOrder
import NestWeaver.Schema
import NestWeaver.Schema.Uid

/-!
# Atomic changes of a file

`diff_symbols` of `crates/nestweaver-engine/src/atomic_changes.rs`: the symbols of a file before and after
are matched by canonical id, those left over are paired as renames, and what is still left is removed
or added.

Two hash maps keep of each canonical id the last symbol.  Both are visited in an order of their own, which
the diff takes as arguments (`MapOrder`).
-/

set_option linter.all false

namespace NestWeaver

/-! ## Symbols of a file -/

structure TypeInfo where
  declaredType : Option String
  parameterTypes : List (String × Option String)
  returnType : Option String
  deriving DecidableEq, Repr

/-- A symbol as the parser finds it. -/
structure RawSymbol where
  name : String
  kind : SymbolKind
  startLine : UInt32
  endLine : UInt32
  signature : String
  contentHash : String
  isEntryPoint : Bool
  entryPointKind : Option EntryPointKind
  visibility : Visibility
  typeInfo : Option TypeInfo
  parentName : Option String
  scopeChain : Option String
  deriving DecidableEq, Repr

def RawSymbol.isModuleOwner (s : RawSymbol) : Bool :=
  s.kind = .module ∧ s.name = moduleOwnerName ∧ s.entryPointKind = some .moduleInit

namespace AtomicChanges

/-! ## Changes -/

inductive AtomicChange
  | symbolAdded (name : String) (kind : SymbolKind) (signature filePath : String)
  | symbolRemoved (canonicalId name : String) (kind : SymbolKind) (filePath : String)
  | signatureChanged (canonicalId name oldSignature newSignature filePath : String)
  | symbolRenamed (oldCanonicalId oldName newName newCanonicalId filePath : String)
  | symbolMoved (canonicalId name oldFile newFile : String)
  | exportAdded (canonicalId name filePath : String)
  | exportRemoved (canonicalId name filePath : String)
  deriving DecidableEq, Repr

/-- The file that is compared with itself. -/
structure FileId where
  truncatedHash : String → String
  filePath : String
  repoUrl : String

def rawSymbolCanonicalId (file : FileId) (s : RawSymbol) : String :=
  Uid.canonicalSymbolId file.truncatedHash file.repoUrl file.filePath s.name
    (s.scopeChain.getD "")

/-! ## The diff -/

/-- The changes of a symbol that both sides have. -/
def matchedChanges (file : FileId) (cid : String) (old new : RawSymbol) : List AtomicChange :=
  (if old.signature ≠ new.signature then
      [AtomicChange.signatureChanged cid old.name old.signature new.signature file.filePath]
    else []) ++
    if old.visibility ≠ .public ∧ new.visibility = .public then
      [AtomicChange.exportAdded cid new.name file.filePath]
    else if old.visibility = .public ∧ new.visibility ≠ .public then
      [AtomicChange.exportRemoved cid old.name file.filePath]
    else []

/-- Phase 1. -/
def matchById (file : FileId) (newMap : String → Option RawSymbol)
    (oldEntries : List (String × RawSymbol)) : List AtomicChange :=
  oldEntries.flatMap fun (cid, old) =>
    match newMap cid with
    | some new => matchedChanges file cid old new
    | none => []

def signaturesSimilar (a b : String) : Bool :=
  Signature.countParams a.toList == Signature.countParams b.toList

/-- The state of the rename loop: the new symbols that are left, and what it found. -/
structure RenameState where
  unmatchedNew : List (String × RawSymbol)
  matchedOld : List String
  matchedNew : List String
  changes : List AtomicChange

def isRename (old : RawSymbol) (entry : String × RawSymbol) : Bool :=
  entry.2.kind = old.kind ∧ entry.2.name ≠ old.name ∧
    signaturesSimilar old.signature entry.2.signature

/-- One old symbol of phase 2. -/
def renameStep (file : FileId) (st : RenameState) (entry : String × RawSymbol) : RenameState :=
  match st.unmatchedNew.find? (isRename entry.2) with
  | none => st
  | some (newCid, new) =>
    { unmatchedNew := st.unmatchedNew.eraseP (isRename entry.2)
      matchedOld := entry.1 :: st.matchedOld
      matchedNew := newCid :: st.matchedNew
      changes := st.changes ++ [AtomicChange.symbolRenamed entry.1 entry.2.name new.name newCid file.filePath] }

def removedChange (file : FileId) (s : RawSymbol) : AtomicChange :=
  .symbolRemoved (rawSymbolCanonicalId file s) s.name s.kind file.filePath

def addedChange (file : FileId) (s : RawSymbol) : AtomicChange :=
  .symbolAdded s.name s.kind s.signature file.filePath

variable (file : FileId) (oldSymbols newSymbols : List RawSymbol)

/-- The symbols of the file, without the owner of its top-level code. -/
def symbolsOf (symbols : List RawSymbol) : List RawSymbol := symbols.filter fun s => !s.isModuleOwner

/-- The map of the symbols by canonical id. -/
abbrev SymbolMap (symbols : List RawSymbol) :=
  MapOrder (lastOf (rawSymbolCanonicalId file) (symbolsOf symbols))

variable (oldMap : SymbolMap file oldSymbols) (newMap : SymbolMap file newSymbols)

/-- What phases 1 and 2 match. -/
def matchSymbols : RenameState :=
  let lookupOld := lastOf (rawSymbolCanonicalId file) (symbolsOf oldSymbols)
  let lookupNew := lastOf (rawSymbolCanonicalId file) (symbolsOf newSymbols)
  let matched := (oldMap.entries.map Prod.fst).filter fun cid => (lookupNew cid).isSome
  (oldMap.entries.filter fun entry => (lookupNew entry.1).isNone).foldl (renameStep file)
    { unmatchedNew := newMap.entries.filter fun entry => (lookupOld entry.1).isNone
      matchedOld := matched
      matchedNew := matched
      changes := matchById file lookupNew oldMap.entries }

def diffSymbols : List AtomicChange :=
  let st := matchSymbols file oldSymbols newSymbols oldMap newMap
  st.changes ++
    ((symbolsOf oldSymbols).filter fun s => rawSymbolCanonicalId file s ∉ st.matchedOld).map
      (removedChange file) ++
    ((symbolsOf newSymbols).filter fun s => rawSymbolCanonicalId file s ∉ st.matchedNew).map
      (addedChange file)

end AtomicChanges
end NestWeaver
