import NestWeaver.Schema.RepoUrl

/-!
# Graph UIDs

`crates/nestweaver-schema/src/uid.rs`: the constructors of the UIDs of graph nodes, the parser of the
canonical ones, and the functions that recover an owner's UID from the UID of what it owns.

A UID is a list of components between colons.  The instance is the only component that is given as it is;
the others are hashes, line numbers, and the short content hash of a section.
-/

set_option linter.all false

namespace NestWeaver
namespace Uid

open Strings RepoUrl

/-! ## Constructors -/

section Constructors

variable (truncatedHash toLowercase : String → String)

def fileUid (repoUid path : String) : String := "file:" ++ repoUid ++ ":" ++ truncatedHash path

def serviceUid (repoUid name : String) : String := "svc:" ++ repoUid ++ ":" ++ truncatedHash name

def symbolUid (repoUid filePath name : String) (line : UInt32) : String :=
  "sym:" ++ repoUid ++ ":" ++ truncatedHash filePath ++ ":" ++ truncatedHash name ++ ":" ++
    line.toNat.repr

def vaultUid (instanceId rootPath : String) : String :=
  "vlt:" ++ instanceId ++ ":" ++ truncatedHash rootPath

def noteUid (vaultUid relPath : String) : String := "note:" ++ vaultUid ++ ":" ++ truncatedHash relPath

def headingUid (noteUid slug : String) (line : UInt32) : String :=
  "head:" ++ noteUid ++ ":" ++ truncatedHash slug ++ ":" ++ line.toNat.repr

def sectionUid (noteUid : String) (startLine : UInt32) (contentHashShort : String) : String :=
  "sec:" ++ noteUid ++ ":" ++ startLine.toNat.repr ++ ":" ++ contentHashShort

def tagUid (vaultUid name : String) : String :=
  "tag:" ++ vaultUid ++ ":" ++ truncatedHash (toLowercase name)

end Constructors

/-! ## Canonical symbol ids -/

/-- The hash of the scope chain, or of the name of a symbol without one. -/
def scopeHash (truncatedHash : String → String) (scopeChain name : String) : String :=
  if scopeChain.isEmpty then truncatedHash name else truncatedHash scopeChain

def canonicalSymbolId (truncatedHash : String → String) (repoUrl filePath name scopeChain : String) :
    String :=
  truncatedHash (normalizedRepoKey repoUrl) ++ ":" ++ filePath ++ "#" ++ name ++ ":" ++
    scopeHash truncatedHash scopeChain name

/-! ## Kinds -/

inductive UidKind
  | repo | file | service | symbol | vault | note | heading | «section» | tag | project | contract
  deriving DecidableEq, Repr

def UidKind.all : List UidKind :=
  [.repo, .file, .service, .symbol, .vault, .note, .heading, .«section», .tag, .project, .contract]

def UidKind.domainPrefix : UidKind → String
  | .repo => "repo:"
  | .file => "file:"
  | .service => "svc:"
  | .symbol => "sym:"
  | .vault => "vlt:"
  | .note => "note:"
  | .heading => "head:"
  | .«section» => "sec:"
  | .tag => "tag:"
  | .project => "proj:"
  | .contract => "contract:"

/-- Classify a UID by its domain prefix. -/
def UidKind.of (uid : String) : Option UidKind :=
  UidKind.all.find? fun kind => kind.domainPrefix.toList.isPrefixOf uid.toList

/-! ## Owners -/

/-- The repo UID inside a symbol UID, parsed from the right. -/
def repoUidOfSymbolUid (uid : String) : Option String := do
  let rest ← stripPrefix "sym:".toList uid.toList
  let (rest, _line) ← rsplitOnce ':' rest
  let (rest, _name) ← rsplitOnce ':' rest
  let (repo, _path) ← rsplitOnce ':' rest
  if "repo:".toList.isPrefixOf repo then some (.ofList repo) else none

/-- The note a heading belongs to. -/
def noteUidOfHeading (headingUid : String) : Option String := do
  let rest ← stripPrefix "head:".toList headingUid.toList
  let (withoutLine, _line) ← rsplitOnce ':' rest
  let (noteUid, _slugHash) ← rsplitOnce ':' withoutLine
  if noteUid = [] then none else some (.ofList noteUid)

/-! ## Canonical UIDs -/

/-- A canonical graph UID split into its parts. -/
inductive CanonicalEntityUid
  | note (instanceId vault note : String)
  | tag (instanceId vault name : String)
  | heading (instanceId vault note slug line : String)
  | «section» (instanceId vault note line content : String)
  | vault (instanceId vault : String)
  | symbol (instanceId repo file name line : String)
  | repo (instanceId repo : String)
  | file (instanceId repo file : String)
  | service (instanceId repo name : String)
  deriving DecidableEq, Repr

def validUidInstance (instanceId : String) : Bool :=
  !instanceId.isEmpty && !instanceId.toList.any isWhiteSpace

def isLowercaseHex (c : Char) : Bool := c.isDigit || (decide ('a' ≤ c) && decide (c ≤ 'f'))

def isLowercase12Hex (value : String) : Bool :=
  value.toList.length == 12 && value.toList.all isLowercaseHex

def contentOk (content : String) : Bool :=
  content.toList.length == 6 && content.toList.all isLowercaseHex

/-- `str::parse::<u32>`. -/
def parseU32 (value : List Char) : Option ℕ :=
  let digits := (stripPrefix ['+'] value).getD value
  if digits ≠ [] ∧ digits.all Char.isDigit ∧ Nat.ofDigitChars 10 digits 0 < UInt32.size then
    some (Nat.ofDigitChars 10 digits 0)
  else none

def isCanonicalU32 (value : String) : Bool :=
  value.toList.all Char.isDigit && (parseU32 value.toList).any fun parsed => value == parsed.repr

def parseCanonicalEntityUid (uid : String) : Option CanonicalEntityUid :=
  match (uid.toList.splitOn ':').map String.ofList with
  | ["note", "vlt", instanceId, vault, note] =>
    if validUidInstance instanceId && isLowercase12Hex vault && isLowercase12Hex note then
      some (.note instanceId vault note)
    else none
  | ["tag", "vlt", instanceId, vault, name] =>
    if validUidInstance instanceId && isLowercase12Hex vault && isLowercase12Hex name then
      some (.tag instanceId vault name)
    else none
  | ["head", "note", "vlt", instanceId, vault, note, slug, line] =>
    if validUidInstance instanceId && isLowercase12Hex vault && isLowercase12Hex note &&
        isLowercase12Hex slug && isCanonicalU32 line then
      some (.heading instanceId vault note slug line)
    else none
  | ["sec", "note", "vlt", instanceId, vault, note, line, content] =>
    if validUidInstance instanceId && isLowercase12Hex vault && isLowercase12Hex note &&
        isCanonicalU32 line && contentOk content then
      some (.«section» instanceId vault note line content)
    else none
  | ["vlt", instanceId, vault] =>
    if validUidInstance instanceId && isLowercase12Hex vault then some (.vault instanceId vault)
    else none
  | ["sym", "repo", instanceId, repo, file, name, line] =>
    if validUidInstance instanceId && isLowercase12Hex repo && isLowercase12Hex file &&
        isLowercase12Hex name && isCanonicalU32 line then
      some (.symbol instanceId repo file name line)
    else none
  | ["repo", instanceId, repo] =>
    if validUidInstance instanceId && isLowercase12Hex repo then some (.repo instanceId repo)
    else none
  | ["file", "repo", instanceId, repo, file] =>
    if validUidInstance instanceId && isLowercase12Hex repo && isLowercase12Hex file then
      some (.file instanceId repo file)
    else none
  | ["svc", "repo", instanceId, repo, name] =>
    if validUidInstance instanceId && isLowercase12Hex repo && isLowercase12Hex name then
      some (.service instanceId repo name)
    else none
  | _ => none

namespace CanonicalEntityUid

def kind : CanonicalEntityUid → UidKind
  | .note .. => .note
  | .tag .. => .tag
  | .heading .. => .heading
  | .«section» .. => .«section»
  | .vault .. => .vault
  | .symbol .. => .symbol
  | .repo .. => .repo
  | .file .. => .file
  | .service .. => .service

def parts : CanonicalEntityUid → List String
  | .note instanceId vaultHash noteHash => ["note", "vlt", instanceId, vaultHash, noteHash]
  | .tag instanceId vaultHash nameHash => ["tag", "vlt", instanceId, vaultHash, nameHash]
  | .heading instanceId vaultHash noteHash slugHash line =>
    ["head", "note", "vlt", instanceId, vaultHash, noteHash, slugHash, line]
  | .«section» instanceId vaultHash noteHash line content =>
    ["sec", "note", "vlt", instanceId, vaultHash, noteHash, line, content]
  | .vault instanceId vaultHash => ["vlt", instanceId, vaultHash]
  | .symbol instanceId repoHash fileHash nameHash line =>
    ["sym", "repo", instanceId, repoHash, fileHash, nameHash, line]
  | .repo instanceId repoHash => ["repo", instanceId, repoHash]
  | .file instanceId repoHash fileHash => ["file", "repo", instanceId, repoHash, fileHash]
  | .service instanceId repoHash nameHash => ["svc", "repo", instanceId, repoHash, nameHash]

def render (uid : CanonicalEntityUid) : String := ":".intercalate uid.parts

/-- The components that are hashes. -/
def hashes : CanonicalEntityUid → List String
  | .note _ vaultHash noteHash => [vaultHash, noteHash]
  | .tag _ vaultHash nameHash => [vaultHash, nameHash]
  | .heading _ vaultHash noteHash slugHash _ => [vaultHash, noteHash, slugHash]
  | .«section» _ vaultHash noteHash _ _ => [vaultHash, noteHash]
  | .vault _ vaultHash => [vaultHash]
  | .symbol _ repoHash fileHash nameHash _ => [repoHash, fileHash, nameHash]
  | .repo _ repoHash => [repoHash]
  | .file _ repoHash fileHash => [repoHash, fileHash]
  | .service _ repoHash nameHash => [repoHash, nameHash]

def mapHashes (f : String → String) : CanonicalEntityUid → CanonicalEntityUid
  | .note instanceId vaultHash noteHash => .note instanceId (f vaultHash) (f noteHash)
  | .tag instanceId vaultHash nameHash => .tag instanceId (f vaultHash) (f nameHash)
  | .heading instanceId vaultHash noteHash slugHash line =>
    .heading instanceId (f vaultHash) (f noteHash) (f slugHash) line
  | .«section» instanceId vaultHash noteHash line content =>
    .«section» instanceId (f vaultHash) (f noteHash) line content
  | .vault instanceId vaultHash => .vault instanceId (f vaultHash)
  | .symbol instanceId repoHash fileHash nameHash line =>
    .symbol instanceId (f repoHash) (f fileHash) (f nameHash) line
  | .repo instanceId repoHash => .repo instanceId (f repoHash)
  | .file instanceId repoHash fileHash => .file instanceId (f repoHash) (f fileHash)
  | .service instanceId repoHash nameHash => .service instanceId (f repoHash) (f nameHash)

end CanonicalEntityUid

/-! ## Entities -/

/-- What the UID of a node is minted from. -/
inductive Entity
  | repo (instanceId url : String)
  | file (instanceId url path : String)
  | service (instanceId url name : String)
  | symbol (instanceId url filePath name : String) (line : UInt32)
  | vault (instanceId rootPath : String)
  | note (instanceId rootPath relPath : String)
  | tag (instanceId rootPath name : String)
  | heading (instanceId rootPath relPath slug : String) (line : UInt32)
  | «section» (instanceId rootPath relPath : String) (startLine : UInt32) (contentHashShort : String)
  deriving DecidableEq, Repr

namespace Entity

def instanceId : Entity → String
  | .repo instanceId .. => instanceId
  | .file instanceId .. => instanceId
  | .service instanceId .. => instanceId
  | .symbol instanceId .. => instanceId
  | .vault instanceId .. => instanceId
  | .note instanceId .. => instanceId
  | .tag instanceId .. => instanceId
  | .heading instanceId .. => instanceId
  | .«section» instanceId .. => instanceId

variable (truncatedHash toLowercase : String → String)

def uid : Entity → String
  | .repo instanceId url => repoUid truncatedHash instanceId url
  | .file instanceId url path => fileUid truncatedHash (repoUid truncatedHash instanceId url) path
  | .service instanceId url name =>
    serviceUid truncatedHash (repoUid truncatedHash instanceId url) name
  | .symbol instanceId url filePath name line =>
    symbolUid truncatedHash (repoUid truncatedHash instanceId url) filePath name line
  | .vault instanceId rootPath => vaultUid truncatedHash instanceId rootPath
  | .note instanceId rootPath relPath =>
    noteUid truncatedHash (vaultUid truncatedHash instanceId rootPath) relPath
  | .tag instanceId rootPath name =>
    tagUid truncatedHash toLowercase (vaultUid truncatedHash instanceId rootPath) name
  | .heading instanceId rootPath relPath slug line =>
    headingUid truncatedHash
      (noteUid truncatedHash (vaultUid truncatedHash instanceId rootPath) relPath) slug line
  | .«section» instanceId rootPath relPath startLine contentHashShort =>
    sectionUid (noteUid truncatedHash (vaultUid truncatedHash instanceId rootPath) relPath) startLine
      contentHashShort

/-- The components before they are hashed. -/
def identity : Entity → CanonicalEntityUid
  | .repo instanceId url => .repo instanceId (normalizedRepoKey url)
  | .file instanceId url path => .file instanceId (normalizedRepoKey url) path
  | .service instanceId url name => .service instanceId (normalizedRepoKey url) name
  | .symbol instanceId url filePath name line =>
    .symbol instanceId (normalizedRepoKey url) filePath name line.toNat.repr
  | .vault instanceId rootPath => .vault instanceId rootPath
  | .note instanceId rootPath relPath => .note instanceId rootPath relPath
  | .tag instanceId rootPath name => .tag instanceId rootPath (toLowercase name)
  | .heading instanceId rootPath relPath slug line =>
    .heading instanceId rootPath relPath slug line.toNat.repr
  | .«section» instanceId rootPath relPath startLine contentHashShort =>
    .«section» instanceId rootPath relPath startLine.toNat.repr contentHashShort

/-- The components of the UID. -/
def components (e : Entity) : CanonicalEntityUid :=
  (e.identity toLowercase).mapHashes truncatedHash

/-- The content hash of a section is as short as the parser wants it. -/
def ContentShort : Entity → Prop
  | .«section» _ _ _ _ contentHashShort => contentOk contentHashShort = true
  | _ => True

end Entity

/-- An instance that a UID can be parsed back from. -/
structure ValidInstance (instanceId : String) : Prop where
  valid : validUidInstance instanceId = true
  noColon : ':' ∉ instanceId.toList

end Uid
end NestWeaver
