import Mathlib.Data.List.Dedup
import Mathlib.Data.Rat.Defs
import NestWeaver.Framework.FirstSeen

/-!
# Redaction of a blast radius

`redact_blast_radius_for_visibility` of `crates/nestweaver-engine/src/authz.rs`, on the results of
`crates/nestweaver-engine/src/blast_radius.rs` with all their fields: a result is cut down in place to the
rows of the repositories that the caller may see, and what was computed from all rows is computed again
from the rows that are left, or dropped.
-/

set_option linter.all false

namespace NestWeaver
namespace Authz

/-! ## Results -/

structure ChangedSymbol where
  uid : String
  name : String
  filePath : String
  kind : String
  pagerankScore : Option ℚ
  repoUid : String
  deriving DecidableEq, Repr

structure AffectedSymbol where
  uid : String
  name : String
  filePath : String
  kind : String
  depth : UInt32
  edgeType : String
  confidence : ℚ
  startLine : UInt32
  impactScore : ℚ
  repoUid : String
  /-- Whether `repoUid` came from an authoritative symbol lookup. -/
  ownershipResolved : Bool
  deriving DecidableEq, Repr

structure AffectedCluster where
  id : UInt32
  name : String
  affectedCount : ℕ
  totalCount : ℕ
  cohesion : ℚ
  deriving DecidableEq, Repr

structure OrgImpactItem where
  changeName : String
  changeKind : String
  changeRepoUid : String
  affectedName : String
  affectedRepoUid : String
  /-- A display label. -/
  affectedRepo : String
  affectedFile : String
  affectedLine : ℤ
  severity : String
  reason : String
  deriving DecidableEq, Repr

structure OrgWideImpact where
  breaking : List OrgImpactItem
  warnings : List OrgImpactItem
  info : List OrgImpactItem
  impactedRepos : List String
  sourceServer : String
  deriving DecidableEq, Repr

inductive AnalysisStatus
  | complete | partially | degraded | failed
  deriving DecidableEq, Repr

def AnalysisStatus.label : AnalysisStatus → String
  | .complete => "complete"
  | .partially => "partial"
  | .degraded => "degraded"
  | .failed => "failed"

inductive NotificationLevel
  | note | warning | error
  deriving DecidableEq, Repr

structure Notification where
  level : NotificationLevel
  message : String
  descriptor : String
  deriving DecidableEq, Repr

inductive GateState
  | ok | degradedUnknown | riskFlagged
  deriving DecidableEq, Repr

structure StaleRepo where
  repoUid : String
  commitsBehind : UInt32
  deriving DecidableEq, Repr

structure Coverage where
  reposInScope : List String
  reposNotIndexed : List String
  staleRepos : List StaleRepo
  traversalTruncated : Bool
  deriving DecidableEq, Repr

inductive BlindSpot
  | dynamicDispatch | reflection | configWiring | codegen | prunedBelowThreshold | depthTruncated
  | notIndexed
  deriving DecidableEq, Repr

inductive RiskLevel
  | low | medium | high | unknown
  deriving DecidableEq, Repr

def RiskLevel.debug : RiskLevel → String
  | .low => "Low"
  | .medium => "Medium"
  | .high => "High"
  | .unknown => "Unknown"

structure CoChangedFile where
  file : String
  coupledTo : String
  cochangeCount : UInt32
  confidence : ℚ
  note : String
  deriving DecidableEq, Repr

structure BlastRadiusResult where
  changedSymbols : List ChangedSymbol
  affectedSymbols : List AffectedSymbol
  affectedSymbolCount : ℕ
  affectedClusters : List AffectedCluster
  topLevelCallees : List AffectedSymbol
  riskLevel : RiskLevel
  summary : String
  orgWide : Option OrgWideImpact
  status : AnalysisStatus
  notifications : List Notification
  resolverStaleRepos : List String
  gateState : GateState
  coverage : Coverage
  blindSpots : List BlindSpot
  cochangedFiles : List CoChangedFile
  analysisDirection : String
  deriving DecidableEq, Repr

def renderBlastSummary (changedSymbols changedFiles affectedSymbols clustersTouched : ℕ)
    (riskLevel : RiskLevel) (status : AnalysisStatus) : String :=
  changedSymbols.repr ++ " changed symbol(s) in " ++ changedFiles.repr ++ " file(s), " ++
    affectedSymbols.repr ++ " transitively affected symbol(s), " ++ clustersTouched.repr ++
    " cluster(s) touched. Risk: " ++ riskLevel.debug ++ "." ++
    if status ≠ .complete then " [status: " ++ status.label ++ "]" else ""

/-! ## Visibility -/

/-- The repos an identity may see. -/
inductive VisibleRepos
  /-- No scoping. -/
  | all
  | only (repos : Finset String)

/-- Whether a row is visible; an empty UID is the local repository. -/
def VisibleRepos.allows (visible : VisibleRepos) (repoUid : String) : Bool :=
  match visible with
  | .all => true
  | .only repos => repoUid = "" ∨ repoUid ∈ repos

/-- Whether a repository itself is visible. -/
def repoIsVisible (repoUid : String) (visible : Option VisibleRepos) : Bool :=
  match visible with
  | some (.only repos) => repoUid ≠ "" ∧ (VisibleRepos.only repos).allows repoUid
  | _ => true

/-- A row is visible that is local, or whose repository is visible. -/
lemma allows_only (repos : Finset String) (repoUid : String) :
    (VisibleRepos.only repos).allows repoUid =
      decide (repoUid = "" ∨ repoIsVisible repoUid (some (.only repos)) = true) := by
  by_cases hempty : repoUid = "" <;> simp [VisibleRepos.allows, repoIsVisible, hempty]

/-! ## Redaction -/

def AffectedSymbol.isVisible (visible : VisibleRepos) (s : AffectedSymbol) : Bool :=
  s.ownershipResolved && visible.allows s.repoUid

/-- Items without one of the two UIDs are hidden. -/
def OrgImpactItem.isVisible (visible : VisibleRepos) (item : OrgImpactItem) : Bool :=
  !item.changeRepoUid.isEmpty && !item.affectedRepoUid.isEmpty &&
    visible.allows item.changeRepoUid && visible.allows item.affectedRepoUid

def redactOrgWide (visible : VisibleRepos) (org : OrgWideImpact) : Option OrgWideImpact :=
  let breaking := org.breaking.filter (·.isVisible visible)
  let warnings := org.warnings.filter (·.isVisible visible)
  let info := org.info.filter (·.isVisible visible)
  let impacted := firstSeen id ((breaking ++ warnings ++ info).map (·.affectedRepo))
  if breaking = [] ∧ warnings = [] ∧ info = [] ∧ impacted = [] then none
  else some { org with breaking, warnings, info, impactedRepos := impacted }

def withheldMessage : String :=
  "blast-radius analysis details withheld by repository visibility policy"

def Notification.redact (notification : Notification) : Notification :=
  { notification with message := withheldMessage }

def redactBlastRadiusForVisibility (visible : VisibleRepos) (result : BlastRadiusResult) :
    BlastRadiusResult :=
  match visible with
  | .all => result
  | .only _ =>
    let affectedSymbols := result.affectedSymbols.filter (·.isVisible visible)
    let changedSymbols := result.changedSymbols.filter fun s => visible.allows s.repoUid
    let changedFiles := (changedSymbols.map (·.filePath)).dedup.length
    { result with
      affectedSymbols
      changedSymbols
      affectedSymbolCount := affectedSymbols.length
      topLevelCallees := result.topLevelCallees.filter (·.isVisible visible)
      orgWide := result.orgWide.bind (redactOrgWide visible)
      coverage :=
        { result.coverage with
          reposInScope := result.coverage.reposInScope.filter visible.allows
          reposNotIndexed := result.coverage.reposNotIndexed.filter visible.allows
          staleRepos := result.coverage.staleRepos.filter fun sr => visible.allows sr.repoUid }
      resolverStaleRepos := result.resolverStaleRepos.filter visible.allows
      affectedClusters := []
      cochangedFiles := []
      notifications := result.notifications.map (·.redact)
      summary := renderBlastSummary changedSymbols.length changedFiles affectedSymbols.length 0
        result.riskLevel result.status }

end Authz
end NestWeaver
