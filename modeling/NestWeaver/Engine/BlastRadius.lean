import NestWeaver.Framework.FirstSeen
import NestWeaver.Store.Traverse.ImpactWalkInvariant

/-!
# Blast radius

`analyze_blast_radius` of `crates/nestweaver-engine/src/blast_radius.rs`, from the changed files to
the affected symbols and the org-wide items, in a run where no lookup fails and nothing is
cancelled.  The changed symbols are walked one after the other; of a symbol that several of them
reach the node found first is kept, together with the changed symbol that surfaced it.

The notifications, the status, the risk level, the clusters, the callees of top-level code and the
co-change data are left out: the affected symbols and the org-wide items do not depend on them.
-/

set_option linter.all false

namespace NestWeaver
namespace BlastRadius

open Traverse

/-! ## The store -/

structure Repo where
  uid : String
  url : String
  deriving DecidableEq, Repr

/-- A snapshot of the graph.  A uid is a primary key, computed from the owning repo, the path, the
name and the line; the label of a file's owner of top-level code is not a name in any indexed
language. -/
structure GraphStore where
  symbols : List Symbol
  edges : List TypedEdge
  repos : List Repo
  uid_key : ∀ s ∈ symbols, ∀ t ∈ symbols, s.uid = t.uid → s = t
  uid_of_fields : ∀ s ∈ symbols, ∀ t ∈ symbols, s.repoUid = t.repoUid → s.filePath = t.filePath →
    s.name = t.name → s.startLine = t.startLine → s.uid = t.uid
  not_owner_label : ∀ s ∈ symbols, ∀ filePath, s.name ≠ moduleOwnerLabel filePath

variable (g : GraphStore)

def GraphStore.lookup (uid : String) : Option Symbol := g.symbols.find? fun s => s.uid = uid

def GraphStore.symbolsInFile (filePath : String) : List Symbol :=
  g.symbols.filter fun s => s.filePath = filePath

def GraphStore.symbolsInFileInRepo (filePath repoUid : String) : List Symbol :=
  g.symbols.filter fun s => s.filePath = filePath ∧ s.repoUid = repoUid

/-- The callers of a symbol, in the order of the requested edge types. -/
def GraphStore.directCallers (uid : String) (minConfidence : ℚ) (types : List EdgeType) :
    List CallerRow :=
  types.flatMap fun type =>
    (g.edges.filter fun e =>
        e.dst = uid ∧ e.edgeType = type ∧ minConfidence ≤ e.confidence).filterMap fun e =>
      (g.lookup e.src).map fun s => ⟨e.src, s.name, s.filePath, s.startLine, type, e.confidence⟩

/-- The display name of a repo: its URL when it has one, else its uid. -/
def GraphStore.repoDisplay (uid : String) : String :=
  match g.repos.find? fun r => r.uid = uid with
  | some r => if r.url = "" then r.uid else r.url
  | none => uid

/-! ## Options and results -/

structure BlastRadiusOptions where
  /-- Scopes changed-file resolution; `none` matches identical paths across repos. -/
  targetRepo : Option String
  maxDepth : ℕ
  includeDataEdges : Bool
  /-- Cap on the returned affected symbols. -/
  limit : Option ℕ

inductive ChangedFileClass
  | source | executionDependency | documentationOnly | unknown
  deriving DecidableEq, Repr

structure ChangedSymbol where
  uid : String
  name : String
  filePath : String
  kind : String
  repoUid : String
  deriving DecidableEq, Repr

structure AffectedSymbol where
  uid : String
  name : String
  filePath : String
  kind : String
  depth : ℕ
  edgeType : EdgeType
  confidence : ℚ
  startLine : ℕ
  impactScore : ℚ
  repoUid : String
  ownershipResolved : Bool
  deriving DecidableEq, Repr

inductive OrgSeverity
  | breaking | warning | info
  deriving DecidableEq, Repr

structure OrgImpactItem where
  changeName : String
  changeKind : String
  changeRepoUid : String
  affectedName : String
  affectedRepoUid : String
  affectedRepo : String
  affectedFile : String
  affectedLine : ℕ
  severity : OrgSeverity
  reason : String
  deriving DecidableEq, Repr

structure OrgWideImpact where
  breaking : List OrgImpactItem
  warnings : List OrgImpactItem
  info : List OrgImpactItem
  impactedRepos : List String
  sourceServer : String
  deriving DecidableEq, Repr

structure BlastRadiusResult where
  changedSymbols : List ChangedSymbol
  affectedSymbols : List AffectedSymbol
  /-- Total before the limit. -/
  affectedSymbolCount : ℕ
  orgWide : Option OrgWideImpact
  traversalTruncated : Bool
  deriving DecidableEq, Repr

/-! ## The analysis -/

variable (o : BlastRadiusOptions) (classify : String → ChangedFileClass)

/-- `DATA_EDGE_MAX_DEPTH`. -/
def dataEdgeMaxDepth : ℕ := 2

/-- The walk from a changed symbol. -/
def impactArgs (uid : String) : WalkArgs where
  targetUid := uid
  maxDepth := o.maxDepth
  minConfidence := 0
  plan := if o.includeDataEdges then .new impactEdgeTypes impactDataEdgeTypes dataEdgeMaxDepth
    else .new impactEdgeTypes [] 0
  minScore := defaultImpactThreshold
  allowedSymbols := none
  cancel := none
  directCallers := fun _ => g.directCallers

/-- The symbols a changed file resolves to; documentation is passed over. -/
def fileSymbols (file : String) : List Symbol :=
  if classify file = .documentationOnly then []
  else
    match o.targetRepo with
    | some repo => g.symbolsInFileInRepo file repo
    | none => g.symbolsInFile file

def ChangedSymbol.ofSymbol (s : Symbol) : ChangedSymbol :=
  ⟨s.uid, s.name, s.filePath, s.kind.asStr, s.repoUid⟩

/-- The variables of the loop over the changed files. -/
structure ChangedState where
  changedUids : Finset String
  changedSymbols : List ChangedSymbol
  changedRepos : Finset String
  deriving DecidableEq

/-- A symbol of a changed file.  The file's owner of top-level code is no changed symbol. -/
def changedStep (st : ChangedState) (s : Symbol) : ChangedState :=
  let st := { st with changedRepos := insert s.repoUid st.changedRepos }
  if s.isModuleOwner then st
  else if s.uid ∈ st.changedUids then st
  else { st with
    changedUids := insert s.uid st.changedUids
    changedSymbols := st.changedSymbols ++ [ChangedSymbol.ofSymbol s] }

/-- Step 1: the changed files to symbols. -/
def changedState (files : List String) : ChangedState :=
  files.foldl (fun st file => (fileSymbols g o classify file).foldl changedStep st) ⟨∅, [], ∅⟩

/-- The affected uids and the buffered nodes, each with the changed symbol that surfaced it. -/
abbrev AffectedState := Finset String × List (ImpactNode × ChangedSymbol)

/-- A node reached from a changed symbol: changed symbols are passed over, and of the others the
first node seen is kept. -/
def mergeNode (changedUids : Finset String) (cs : ChangedSymbol) (st : AffectedState)
    (node : ImpactNode) : AffectedState :=
  if node.uid ∈ changedUids then st
  else if node.uid ∈ st.1 then st
  else (insert node.uid st.1, st.2 ++ [(node, cs)])

/-- Step 2: the walks from the changed symbols, in order; a cancelled walk ends the loop. -/
def traverseChanged (changedUids : Finset String) :
    List ChangedSymbol → AffectedState → Bool → AffectedState × Bool
  | [], st, truncated => (st, truncated)
  | cs :: rest, st, truncated =>
    match impactWalk (impactArgs g o cs.uid) with
    | .error _ => (st, truncated)
    | .ok result =>
      traverseChanged changedUids rest (result.nodes.foldl (mergeNode changedUids cs) st)
        (truncated || result.truncatedByThreshold || result.truncatedByDepth)

/-- Classify a cross-repo impact by its decayed impact score. -/
def classifyOrgSeverity (impactScore : ℚ) : OrgSeverity :=
  if impactScore ≥ 1 / 2 then .breaking
  else if impactScore ≥ 1 / 4 then .warning
  else .info

def affectedRepo (node : ImpactNode) : String :=
  match g.lookup node.uid with
  | some s => s.repoUid
  | none => ""

/-- The org-wide item of a buffered node, when its symbol lives in a repo with no changed symbol. -/
def orgItem (changedRepos : Finset String) (entry : ImpactNode × ChangedSymbol) :
    Option OrgImpactItem :=
  let (node, cs) := entry
  let repo := affectedRepo g node
  if repo ≠ "" ∧ repo ∉ changedRepos then
    some
      { changeName := cs.name
        changeKind := cs.kind
        changeRepoUid := cs.repoUid
        affectedName := symbolDisplayName node.name node.filePath
        affectedRepoUid := repo
        affectedRepo := g.repoDisplay repo
        affectedFile := node.filePath
        affectedLine := node.startLine
        severity := classifyOrgSeverity node.impactScore
        reason := "cross-repo dependency (via " ++ node.edgeType.relTableName ++
          ") — verify the downstream consumer still works against the changed symbol" }
  else none

def affectedSymbol (node : ImpactNode) : AffectedSymbol where
  uid := node.uid
  name := symbolDisplayName node.name node.filePath
  filePath := node.filePath
  kind := match g.lookup node.uid with
    | some s => s.kind.asStr
    | none => ""
  depth := node.depth
  edgeType := node.edgeType
  confidence := node.confidence
  startLine := node.startLine
  impactScore := node.impactScore
  repoUid := affectedRepo g node
  ownershipResolved := (g.lookup node.uid).isSome

/-- The final order: highest score first, then by uid. -/
def AffectedSymbol.Before (left right : AffectedSymbol) : Prop :=
  right.impactScore < left.impactScore ∨
    (right.impactScore = left.impactScore ∧ left.uid ≤ right.uid)

instance : DecidableRel AffectedSymbol.Before := fun left right =>
  inferInstanceAs (Decidable (right.impactScore < left.impactScore ∨
    (right.impactScore = left.impactScore ∧ left.uid ≤ right.uid)))

/-- The cross-repo impacts by severity. -/
def orgWideImpact (items : List OrgImpactItem) : Option OrgWideImpact :=
  if items = [] then none
  else
    some
      { breaking := items.filter fun item => item.severity = .breaking
        warnings := items.filter fun item => item.severity = .warning
        info := items.filter fun item => item.severity = .info
        impactedRepos := ((firstSeen id (items.map (·.affectedRepoUid))).map
          g.repoDisplay).insertionSort (· ≤ ·)
        sourceServer := "local" }

/-- `apply_affected_symbol_limit`. -/
def applyLimit (limit : Option ℕ) (affected : List AffectedSymbol) : List AffectedSymbol :=
  match limit with
  | some n => if affected.length > n then affected.take n else affected
  | none => affected

def analyzeBlastRadius (changedFiles : List String) : BlastRadiusResult :=
  let changed := changedState g o classify changedFiles
  let (affected, truncated) :=
    traverseChanged g o changed.changedUids changed.changedSymbols (∅, []) false
  let affectedSymbols :=
    (affected.2.map fun entry => affectedSymbol g entry.1).insertionSort AffectedSymbol.Before
  { changedSymbols := changed.changedSymbols
    affectedSymbols := applyLimit o.limit affectedSymbols
    affectedSymbolCount := affectedSymbols.length
    orgWide := orgWideImpact g (affected.2.filterMap (orgItem g changed.changedRepos))
    traversalTruncated := truncated }

end BlastRadius
end NestWeaver
