import Mathlib.Data.List.AList
import NestWeaver.Framework.Checked

/-!
# Slots of a publication root

The manifest of a slot and what a slot has to contain before a pointer may select it:
`crates/nestweaver-engine/src/publication.rs`.  Texts of UUIDs are parsed by the `uuid` crate, digests are
computed by `blake3`, and a manifest is decoded by `serde_json`; all are given by `Libraries`.
-/

set_option linter.all false

namespace NestWeaver
namespace PublicationRoot

open Checked

/-! ## Manifests -/

inductive ArtifactKind
  | graph | sourceManifest | preservedState | compatibilityStamp | instanceConfig | ranking | repoManifest
  | markdownDerivation | bm25 | regex | embeddings | parsedCache | resolutionDependencies | fileMetadata
  | gitActivity | cochange | interactions | extensions | aliases | bundles | generation | writeAheadLog
  | workspaceClone
  deriving DecidableEq, Repr

structure ArtifactDescriptor where
  path : String
  kind : ArtifactKind
  artifactSchemaVersion : ℕ
  byteSize : ℕ
  blake3 : String
  brainUuid : String
  publicationUuid : String
  producerVersion : String
  sourceGraphGeneration : ℕ
  algorithmFingerprint : String
  deriving DecidableEq, Repr

structure PublicationBundleV3 where
  formatVersion : ℕ
  brainUuid : String
  publicationUuid : String
  producerVersion : String
  sourceGraphGeneration : ℕ
  artifacts : List ArtifactDescriptor
  deriving DecidableEq, Repr

/-- What the crates and the standard library compute.  `β` holds the bytes of a file, `υ` the UUIDs. -/
structure Libraries (υ β : Type) where
  parseStr : String → Except String υ
  /-- `Uuid::to_string`. -/
  text : υ → String
  nil : υ
  parse_text : ∀ u, parseStr (text u) = .ok u
  blake3Hex : String → String
  blake3HexBytes : β → String
  byteSize : β → ℕ
  decodeBundle : β → Except String PublicationBundleV3
  toLowercase : String → String

/-- `PUBLICATION_MANIFEST_FILE`. -/
def publicationManifestFile : String := "publication.json"

/-! ## Texts -/

def segments (path : String) : List (List Char) := path.toList.splitOn '/'

/-- The path is absolute, or one of its components is not a name. -/
def isUnsafePath (path : String) : Bool :=
  (segments path).head? = some [] ∨ (segments path).head? = some ['.'] ∨ ['.', '.'] ∈ segments path

/-- The names of the path, with a slash between two. -/
def normalizedPath (path : String) : String :=
  String.ofList (['/'].intercalate ((segments path).filter fun s => s ≠ [] ∧ s ≠ ['.']))

def isAsciiHexdigit (c : Char) : Bool := c.isDigit ∨ ('a' ≤ c ∧ c ≤ 'f') ∨ ('A' ≤ c ∧ c ≤ 'F')

/-- Sixty-four hexadecimal digits. -/
def isDigest (value : String) : Bool := value.utf8ByteSize = 64 ∧ value.toList.all isAsciiHexdigit

/-- `validate_digest` of the publications. -/
def validateNamedDigest (name value : String) : Except String Unit :=
  bailIf (!isDigest value) ("invalid " ++ name ++ ": expected a 64-character hexadecimal BLAKE3 digest")

section

variable {υ β : Type} [DecidableEq υ] (lib : Libraries υ β)

/-- A UUID that is not nil; the two texts of the error differ from caller to caller. -/
def parseUuidAs (invalid isNil value : String) : Except String υ :=
  match lib.parseStr value with
  | .error e => .error (invalid ++ " '" ++ value ++ "': " ++ e)
  | .ok parsed => if parsed = lib.nil then .error (invalid ++ isNil) else .ok parsed

/-- `parse_uuid` of the publications. -/
def parseUuid (name value : String) : Except String υ :=
  parseUuidAs lib ("invalid " ++ name) ": nil UUID is not a data identity" value

structure PublicationIdentity where
  brainUuid : String
  publicationUuid : String
  deriving DecidableEq, Repr

/-- With the text of the `StoreError`. -/
def PublicationIdentity.validate (identity : PublicationIdentity) : Except String Unit := do
  let brain ← parseUuidAs lib "query error: invalid brain_uuid metadata"
    ": nil UUID is not a data identity" identity.brainUuid
  let publication ← parseUuidAs lib "query error: invalid publication_uuid metadata"
    ": nil UUID is not a data identity" identity.publicationUuid
  bailIf (brain = publication) "query error: brain_uuid and publication_uuid must be distinct"

omit [DecidableEq υ] in
lemma text_injective : Function.Injective lib.text := by
  intro u v h
  have hu := lib.parse_text u
  rw [h, lib.parse_text v] at hu
  exact (Except.ok.inj hu).symm

lemma parseUuidAs_eq_ok {invalid isNil value : String} {u : υ} :
    parseUuidAs lib invalid isNil value = .ok u ↔ lib.parseStr value = .ok u ∧ u ≠ lib.nil := by
  rw [parseUuidAs]
  cases lib.parseStr value with
  | error e => simp
  | ok parsed =>
    by_cases hnil : parsed = lib.nil
    · simp only [hnil, if_true, Except.ok.injEq, reduceCtorEq, false_iff, not_and_not_right]
      exact fun h => h.symm
    · simp only [if_neg hnil, Except.ok.injEq]
      constructor
      · rintro rfl
        exact ⟨rfl, hnil⟩
      · exact And.left

lemma parseUuid_eq_ok {name value : String} {u : υ} :
    parseUuid lib name value = .ok u ↔ lib.parseStr value = .ok u ∧ u ≠ lib.nil :=
  parseUuidAs_eq_ok lib

/-- The text of the error with what was being done. -/
def within {α : Type} (context : String) (x : Except String α) : Except String α :=
  x.mapError (context ++ ": " ++ ·)

@[simp] lemma within_eq_ok {α : Type} {context : String} {x : Except String α} {a : α} :
    within context x = .ok a ↔ x = .ok a := by
  cases x with
  | error e => simp [within, Except.mapError]
  | ok b => simp [within, Except.mapError]

/-! ## The metadata of a manifest -/

/-- One artifact of a bundle, after those with these normalized paths and these paths without case. -/
def validateDescriptor (bundle : PublicationBundleV3) (brain publication : υ) (paths folded : List String)
    (descriptor : ArtifactDescriptor) : Except String Unit := do
  bailIf (descriptor.path = "") "publication bundle contains an empty artifact path"
  bailIf (isUnsafePath descriptor.path)
    ("publication bundle contains unsafe artifact path: " ++ descriptor.path)
  bailIf (normalizedPath descriptor.path ∈ paths)
    ("publication bundle contains duplicate artifact: " ++ descriptor.path)
  bailIf (lib.toLowercase (normalizedPath descriptor.path) ∈ folded)
    ("publication bundle contains artifact paths differing only by case: " ++ descriptor.path ++
      "; these name one file on a case-insensitive filesystem")
  let observedBrain ← parseUuid lib "artifact brain_uuid" descriptor.brainUuid
  let observedPublication ← parseUuid lib "artifact publication_uuid" descriptor.publicationUuid
  bailIf (observedBrain ≠ brain ∨ observedPublication ≠ publication)
    ("publication artifact " ++ descriptor.path ++ " has foreign identity " ++ descriptor.brainUuid ++ "/" ++
      descriptor.publicationUuid)
  bailIf (descriptor.producerVersion ≠ bundle.producerVersion ∨ descriptor.algorithmFingerprint = "" ∨
      descriptor.artifactSchemaVersion = 0)
    ("publication artifact " ++ descriptor.path ++
      " has incompatible schema/producer/fingerprint metadata (artifact producer '" ++
      descriptor.producerVersion ++ "', bundle producer '" ++ bundle.producerVersion ++ "')")
  bailIf (descriptor.sourceGraphGeneration ≠ bundle.sourceGraphGeneration)
    ("publication artifact " ++ descriptor.path ++ " source generation " ++
      toString descriptor.sourceGraphGeneration ++ " does not match bundle " ++
      toString bundle.sourceGraphGeneration)
  validateNamedDigest "artifact blake3" descriptor.blake3

def validateDescriptors (bundle : PublicationBundleV3) (brain publication : υ) :
    List String → List String → List ArtifactDescriptor → Except String Unit
  | _, _, [] => .ok ()
  | paths, folded, descriptor :: rest => do
    validateDescriptor lib bundle brain publication paths folded descriptor
    validateDescriptors bundle brain publication (normalizedPath descriptor.path :: paths)
      (lib.toLowercase (normalizedPath descriptor.path) :: folded) rest

def PublicationBundleV3.validateMetadata (bundle : PublicationBundleV3) (expectedFormatVersion : ℕ) :
    Except String Unit := do
  bailIf (bundle.formatVersion ≠ expectedFormatVersion)
    ("publication bundle format " ++ toString bundle.formatVersion ++ " does not match expected v" ++
      toString expectedFormatVersion)
  within "invalid publication bundle identity"
    (PublicationIdentity.validate lib ⟨bundle.brainUuid, bundle.publicationUuid⟩)
  bailIf (bundle.producerVersion = "") "publication bundle producer version is empty"
  let brain ← parseUuid lib "bundle brain_uuid" bundle.brainUuid
  let publication ← parseUuid lib "bundle publication_uuid" bundle.publicationUuid
  bailIf (bundle.artifacts = []) "publication bundle describes no artifacts"
  validateDescriptors lib bundle brain publication [] [] bundle.artifacts

/-! ## What a slot contains -/

inductive SlotEntry (β : Type)
  | file (bytes : β)
  /-- With what is read through the link. -/
  | symlink (reads : Option β)
  | directory
  deriving DecidableEq, Repr

def SlotEntry.isSymlink : SlotEntry β → Bool
  | .symlink _ => true
  | .file _ | .directory => false

def SlotEntry.isFile : SlotEntry β → Bool
  | .file _ => true
  | .symlink _ | .directory => false

/-- The entries below the directory of a slot, by their paths. -/
abbrev Slot (β : Type) := AList fun _ : String => SlotEntry β

/-- `std::fs::read`. -/
def Slot.read (slot : Slot β) (path : String) : Option β :=
  match slot.lookup (normalizedPath path) with
  | some (.file bytes) => some bytes
  | some (.symlink reads) => reads
  | some .directory | none => none

/-- The bytes of the canonical manifest. -/
def Slot.manifest (slot : Slot β) : Option β := slot.read publicationManifestFile

/-- Whether the bytes of the artifacts are still bound to the digests of the manifest. -/
inductive ArtifactBytes
  | verified | live
  deriving DecidableEq, Repr

def validateArtifact (slot : Slot β) (bytes : ArtifactBytes) (descriptor : ArtifactDescriptor) :
    Except String Unit := do
  let entry := slot.lookup (normalizedPath descriptor.path)
  bailIf entry.isNone ("stat target artifact " ++ descriptor.path)
  bailIf (entry.any SlotEntry.isSymlink)
    ("target artifact " ++ descriptor.path ++
      " is a symbolic link; a sealed slot must contain real files only")
  bailIf ((segments descriptor.path).head? = some [])
    ("target artifact " ++ descriptor.path ++ " resolves outside the publication slot")
  match bytes, entry with
  | .verified, some (.file content) =>
    bailIf (lib.byteSize content ≠ descriptor.byteSize ∨ lib.blake3HexBytes content ≠ descriptor.blake3)
      ("target artifact " ++ descriptor.path ++ " failed size or digest validation")
  | .verified, _ => .error ("stream target artifact " ++ descriptor.path)
  | .live, _ => .ok ()

/-- The lock of the writer of the graph, which stays in the slot. -/
def isWriterLock (bundle : PublicationBundleV3) (name : String) : Bool :=
  bundle.artifacts.any fun artifact => artifact.kind = .graph ∧ name = artifact.path ++ ".write.lock"

/-- The files that the reverse inventory compares with the manifest. -/
def presentFiles (slot : Slot β) (bundle : PublicationBundleV3) : List String :=
  (slot.entries.filter fun e => e.2.isFile ∧ e.1 ≠ publicationManifestFile ∧ !isWriterLock bundle e.1).map
    Sigma.fst

def validateSlotContents (slot : Slot β) (bundle : PublicationBundleV3) (bytes : ArtifactBytes) :
    Except String Unit := do
  bundle.artifacts.forM (validateArtifact lib slot bytes)
  bailIf (slot.entries.any fun e => e.2.isSymlink)
    "target slot contains a symbolic link; a sealed slot must contain real files only"
  let undescribed := (presentFiles slot bundle).filter fun name => name ∉ bundle.artifacts.map (·.path)
  bailIf (undescribed ≠ [])
    ("target slot contains " ++ toString undescribed.length ++
      " file(s) the manifest does not describe; a sealed slot must contain exactly what it declares")

end

end PublicationRoot
end NestWeaver
