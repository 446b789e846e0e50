import Mathlib.Data.Rat.Defs

/-!
# The graph schema

The part of `crates/nestweaver-schema` the analyses read: edge types, symbols, and the labels of the
per-file owner of top-level code.
-/

set_option linter.all false

namespace NestWeaver

/-- The edge types of the graph. -/
inductive EdgeType
  | calls | imports | extends | implements | includes | uses | accesses | memberOf | contains
  | crossRepoLink | projectIncludesSymbol | projectIncludesNote | projectHasComponent
  | projectHasParent | implementsContract | supersedes | dependsOn | causedBy | relatesTo
  deriving DecidableEq, Repr

/-- The name of the relationship table of an edge type. -/
def EdgeType.relTableName : EdgeType → String
  | .calls => "CALLS"
  | .imports => "IMPORTS"
  | .extends => "EXTENDS_SYM"
  | .implements => "IMPLEMENTS_SYM"
  | .includes => "INCLUDES_SYM"
  | .uses => "USES"
  | .accesses => "ACCESSES"
  | .memberOf => "MEMBER_OF"
  | .contains => "CONTAINS"
  | .crossRepoLink => "CROSS_REPO_LINK"
  | .projectIncludesSymbol => "PROJECT_INCLUDES_SYMBOL"
  | .projectIncludesNote => "PROJECT_INCLUDES_NOTE"
  | .projectHasComponent => "PROJECT_HAS_COMPONENT"
  | .projectHasParent => "PROJECT_HAS_PARENT"
  | .implementsContract => "IMPLEMENTS_CONTRACT"
  | .supersedes => "SUPERSEDES"
  | .dependsOn => "DEPENDS_ON"
  | .causedBy => "CAUSED_BY"
  | .relatesTo => "RELATES_TO"

/-- An edge of the graph: `src` calls (imports, extends, …) `dst`. -/
structure TypedEdge where
  src : String
  dst : String
  edgeType : EdgeType
  confidence : ℚ
  deriving DecidableEq, Repr

inductive EntryPointKind
  | main | httpHandler | eventListener | testEntry | lambdaHandler | cronJob | cliCommand
  | moduleInit
  deriving DecidableEq, Repr

inductive SymbolKind
  | function | «class» | method | interface | trait | enum | module | extension | constant | property
  | typeAlias | variable
  deriving DecidableEq, Repr

def SymbolKind.asStr : SymbolKind → String
  | .function => "Function"
  | .class => "Class"
  | .method => "Method"
  | .interface => "Interface"
  | .trait => "Trait"
  | .enum => "Enum"
  | .module => "Module"
  | .extension => "Extension"
  | .constant => "Constant"
  | .property => "Property"
  | .typeAlias => "TypeAlias"
  | .variable => "Variable"

inductive Visibility
  | «public» | internal | «protected» | «private» | inferred
  deriving DecidableEq, Repr

/-- A symbol row. -/
structure Symbol where
  uid : String
  name : String
  kind : SymbolKind
  repoUid : String
  filePath : String
  startLine : ℕ
  endLine : ℕ
  pagerankScore : Option ℚ
  isEntryPoint : Bool
  entryPointKind : Option EntryPointKind
  visibility : Visibility
  deriving DecidableEq, Repr

/-- Name of the per-file symbol that owns top-level calls. -/
def moduleOwnerName : String := "<module>"

/-- The one display label of a `<module>` owner. -/
def moduleOwnerLabel (filePath : String) : String := filePath ++ "::" ++ moduleOwnerName

/-- A symbol's display name when only its name and path are at hand. -/
def symbolDisplayName (name filePath : String) : String :=
  if name = moduleOwnerName then moduleOwnerLabel filePath else name

/-- Whether a symbol is the parser's per-file owner of top-level calls. -/
def Symbol.isModuleOwner (s : Symbol) : Bool :=
  s.kind = .module ∧ s.name = moduleOwnerName ∧ s.entryPointKind = some .moduleInit

/-- In one file, names that are not owner labels have different display names. -/
lemma symbolDisplayName_inj {name name' filePath : String}
    (hname : name ≠ moduleOwnerLabel filePath) (hname' : name' ≠ moduleOwnerLabel filePath)
    (h : symbolDisplayName name filePath = symbolDisplayName name' filePath) : name = name' := by
  unfold symbolDisplayName at h
  split_ifs at h with howner howner' howner'
  · exact howner.trans howner'.symm
  · exact absurd h.symm hname'
  · exact absurd h hname
  · exact h

end NestWeaver
