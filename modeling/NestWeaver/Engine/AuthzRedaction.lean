import NestWeaver.Engine.Authz

/-!
# Redaction does not interfere

A redacted result is a function of the visible rows and of the fields that are kept on purpose
(`redact_eq_of_agree`).  It holds nothing else (`onlyVisible_redact`), and redacting it again changes
nothing (`redact_redact`).
-/

set_option linter.all false

namespace NestWeaver
namespace Authz

variable {visible : VisibleRepos} {repos : Finset String} {r r' : BlastRadiusResult}

/-! ## What two results share -/

/-- The org items of a result with both ends visible, in one of its lists. -/
def visibleItems (visible : VisibleRepos) (list : OrgWideImpact → List OrgImpactItem)
    (r : BlastRadiusResult) : List OrgImpactItem :=
  ((r.orgWide.map list).getD []).filter (·.isVisible visible)

/-- The rows of visible repositories and the fields that are kept on purpose are the same. -/
structure AgreeOn (visible : VisibleRepos) (r r' : BlastRadiusResult) : Prop where
  changedSymbols : (r.changedSymbols.filter fun s => visible.allows s.repoUid) =
    r'.changedSymbols.filter fun s => visible.allows s.repoUid
  affectedSymbols : r.affectedSymbols.filter (·.isVisible visible) =
    r'.affectedSymbols.filter (·.isVisible visible)
  topLevelCallees : r.topLevelCallees.filter (·.isVisible visible) =
    r'.topLevelCallees.filter (·.isVisible visible)
  breaking : visibleItems visible (·.breaking) r = visibleItems visible (·.breaking) r'
  warnings : visibleItems visible (·.warnings) r = visibleItems visible (·.warnings) r'
  info : visibleItems visible (·.info) r = visibleItems visible (·.info) r'
  reposInScope : r.coverage.reposInScope.filter visible.allows =
    r'.coverage.reposInScope.filter visible.allows
  reposNotIndexed : r.coverage.reposNotIndexed.filter visible.allows =
    r'.coverage.reposNotIndexed.filter visible.allows
  staleRepos : (r.coverage.staleRepos.filter fun sr => visible.allows sr.repoUid) =
    r'.coverage.staleRepos.filter fun sr => visible.allows sr.repoUid
  resolverStaleRepos : r.resolverStaleRepos.filter visible.allows =
    r'.resolverStaleRepos.filter visible.allows
  riskLevel : r.riskLevel = r'.riskLevel
  gateState : r.gateState = r'.gateState
  status : r.status = r'.status
  blindSpots : r.blindSpots = r'.blindSpots
  analysisDirection : r.analysisDirection = r'.analysisDirection
  traversalTruncated : r.coverage.traversalTruncated = r'.coverage.traversalTruncated
  notifications : r.notifications.map (fun n => (n.level, n.descriptor)) =
    r'.notifications.map fun n => (n.level, n.descriptor)

/-- The upstream server of an org-wide view that is left has one name. -/
def SameServer (visible : VisibleRepos) (r r' : BlastRadiusResult) : Prop :=
  visibleItems visible (·.breaking) r ++ visibleItems visible (·.warnings) r ++
      visibleItems visible (·.info) r ≠ [] →
    r.orgWide.map (·.sourceServer) = r'.orgWide.map (·.sourceServer)

/-! ## The org-wide view -/

/-- The org-wide view of these items. -/
def orgView (breaking warnings info : List OrgImpactItem) (sourceServer : Option String) :
    Option OrgWideImpact :=
  if breaking ++ warnings ++ info = [] then none
  else sourceServer.map fun sourceServer =>
    { breaking, warnings, info, sourceServer
      impactedRepos := firstSeen id ((breaking ++ warnings ++ info).map (·.affectedRepo)) }

/-- What is left of an org-wide view is a function of its visible items. -/
lemma redactOrgWide_eq (r : BlastRadiusResult) : r.orgWide.bind (redactOrgWide visible) =
    orgView (visibleItems visible (·.breaking) r) (visibleItems visible (·.warnings) r)
      (visibleItems visible (·.info) r) (r.orgWide.map (·.sourceServer)) := by
  cases horg : r.orgWide with
  | none => simp [orgView, visibleItems, horg]
  | some org =>
    have hitems : ∀ list, visibleItems visible list r = (list org).filter (·.isVisible visible) := by
      intro list
      rw [visibleItems, horg]
      rfl
    rw [Option.bind_some, redactOrgWide, orgView, hitems, hitems, hitems, Option.map_some,
      Option.map_some]
    refine if_congr ?_ rfl rfl
    rw [List.append_eq_nil_iff, List.append_eq_nil_iff]
    constructor
    · rintro ⟨hbreaking, hwarnings, hinfo, -⟩
      exact ⟨⟨hbreaking, hwarnings⟩, hinfo⟩
    · rintro ⟨⟨hbreaking, hwarnings⟩, hinfo⟩
      refine ⟨hbreaking, hwarnings, hinfo, ?_⟩
      rw [hbreaking, hwarnings, hinfo]
      rfl

/-! ## Non-interference -/

/-- **Redaction does not interfere.** -/
lemma redact_eq_of_agree (h : AgreeOn (.only repos) r r') (hserver : SameServer (.only repos) r r') :
    redactBlastRadiusForVisibility (.only repos) r =
      redactBlastRadiusForVisibility (.only repos) r' := by
  have horg : r.orgWide.bind (redactOrgWide (.only repos)) =
      r'.orgWide.bind (redactOrgWide (.only repos)) := by
    rw [redactOrgWide_eq, redactOrgWide_eq, ← h.breaking, ← h.warnings, ← h.info, orgView, orgView]
    split_ifs with hempty
    · rfl
    · rw [hserver hempty]
  have hnotifications : r.notifications.map (·.redact) = r'.notifications.map (·.redact) := by
    have hredact : ∀ ns : List Notification, ns.map (·.redact) =
        (ns.map fun n => (n.level, n.descriptor)).map fun (level, descriptor) =>
          { level, message := withheldMessage, descriptor } := by
      intro ns
      rw [List.map_map]
      rfl
    rw [hredact, hredact, h.notifications]
  simp only [redactBlastRadiusForVisibility, BlastRadiusResult.mk.injEq, Coverage.mk.injEq]
  rw [h.changedSymbols, h.affectedSymbols]
  exact ⟨rfl, rfl, rfl, trivial, h.topLevelCallees, h.riskLevel, by rw [h.riskLevel, h.status], horg,
    h.status, hnotifications, h.resolverStaleRepos, h.gateState,
    ⟨h.reposInScope, h.reposNotIndexed, h.staleRepos, h.traversalTruncated⟩, h.blindSpots, trivial,
    h.analysisDirection⟩

/-! ## What is left -/

/-- A result refers to visible repositories only, and its counts are those of its rows. -/
structure OnlyVisible (repos : Finset String) (r : BlastRadiusResult) : Prop where
  changedSymbols : ∀ s ∈ r.changedSymbols,
    s.repoUid = "" ∨ repoIsVisible s.repoUid (some (.only repos)) = true
  affectedSymbols : ∀ s ∈ r.affectedSymbols ++ r.topLevelCallees, s.ownershipResolved = true ∧
    (s.repoUid = "" ∨ repoIsVisible s.repoUid (some (.only repos)) = true)
  items : ∀ org, r.orgWide = some org → org.breaking ++ org.warnings ++ org.info ≠ [] ∧
    (∀ item ∈ org.breaking ++ org.warnings ++ org.info,
      repoIsVisible item.changeRepoUid (some (.only repos)) = true ∧
        repoIsVisible item.affectedRepoUid (some (.only repos)) = true) ∧
    org.impactedRepos.Nodup ∧ ∀ label, label ∈ org.impactedRepos ↔
      ∃ item ∈ org.breaking ++ org.warnings ++ org.info, item.affectedRepo = label
  coverage : ∀ uid ∈ r.coverage.reposInScope ++ r.coverage.reposNotIndexed ++
      r.coverage.staleRepos.map (·.repoUid) ++ r.resolverStaleRepos,
    uid = "" ∨ repoIsVisible uid (some (.only repos)) = true
  groups : r.affectedClusters = [] ∧ r.cochangedFiles = []
  messages : ∀ n ∈ r.notifications, n.message = withheldMessage
  count : r.affectedSymbolCount = r.affectedSymbols.length
  summary : r.summary = renderBlastSummary r.changedSymbols.length
    (r.changedSymbols.map (·.filePath)).dedup.length r.affectedSymbolCount r.affectedClusters.length
    r.riskLevel r.status

lemma isVisible_iff (repos : Finset String) (s : AffectedSymbol) :
    s.isVisible (.only repos) = true ↔ s.ownershipResolved = true ∧
      (s.repoUid = "" ∨ repoIsVisible s.repoUid (some (.only repos)) = true) := by
  rw [AffectedSymbol.isVisible, Bool.and_eq_true, allows_only, decide_eq_true_eq]

lemma item_isVisible_iff (repos : Finset String) (item : OrgImpactItem) :
    item.isVisible (.only repos) = true ↔
      repoIsVisible item.changeRepoUid (some (.only repos)) = true ∧
        repoIsVisible item.affectedRepoUid (some (.only repos)) = true := by
  simp only [OrgImpactItem.isVisible, repoIsVisible, Bool.and_eq_true, Bool.not_eq_true',
    String.isEmpty_eq_false_iff, decide_eq_true_eq, ne_eq]
  tauto

lemma mem_visibleItems {list : OrgWideImpact → List OrgImpactItem} {item : OrgImpactItem}
    (h : item ∈ visibleItems visible list r) : item.isVisible visible = true :=
  (List.mem_filter.mp h).2

lemma orgView_eq_some {breaking warnings info : List OrgImpactItem} {sourceServer : Option String}
    {org : OrgWideImpact} (h : orgView breaking warnings info sourceServer = some org) :
    org.breaking = breaking ∧ org.warnings = warnings ∧ org.info = info ∧
      breaking ++ warnings ++ info ≠ [] ∧
      org.impactedRepos = firstSeen id ((breaking ++ warnings ++ info).map (·.affectedRepo)) := by
  rw [orgView] at h
  split_ifs at h with hempty
  obtain ⟨server, -, rfl⟩ := Option.map_eq_some_iff.mp h
  exact ⟨rfl, rfl, rfl, hempty, rfl⟩

/-- **Nothing hidden is left.** -/
lemma onlyVisible_redact (repos : Finset String) (r : BlastRadiusResult) :
    OnlyVisible repos (redactBlastRadiusForVisibility (.only repos) r) where
  changedSymbols s hs := by
    have hvisible := (List.mem_filter.mp hs).2
    rwa [allows_only, decide_eq_true_eq] at hvisible
  affectedSymbols s hs := by
    obtain hs | hs := List.mem_append.mp hs
    · exact (isVisible_iff repos s).mp (List.mem_filter.mp hs).2
    · exact (isVisible_iff repos s).mp (List.mem_filter.mp hs).2
  items org horg := by
    have hview : r.orgWide.bind (redactOrgWide (.only repos)) = some org := horg
    rw [redactOrgWide_eq] at hview
    obtain ⟨hbreaking, hwarnings, hinfo, hne, himpacted⟩ := orgView_eq_some hview
    rw [hbreaking, hwarnings, hinfo, himpacted]
    refine ⟨hne, fun item hitem => (item_isVisible_iff repos item).mp ?_, ?_, fun label => ?_⟩
    · rw [List.mem_append, List.mem_append] at hitem
      exact hitem.elim (fun h => h.elim mem_visibleItems mem_visibleItems) mem_visibleItems
    · have hnodup := nodup_firstSeen id ((visibleItems (.only repos) (·.breaking) r ++
        visibleItems (.only repos) (·.warnings) r ++
          visibleItems (.only repos) (·.info) r).map (·.affectedRepo))
      rwa [List.map_id] at hnodup
    · rw [mem_firstSeen_id, List.mem_map]
  coverage uid huid := by
    have hallows : (VisibleRepos.only repos).allows uid = true := by
      rw [List.mem_append, List.mem_append, List.mem_append] at huid
      obtain ((huid | huid) | huid) | huid := huid
      · exact (List.mem_filter.mp huid).2
      · exact (List.mem_filter.mp huid).2
      · obtain ⟨sr, hsr, rfl⟩ := List.mem_map.mp huid
        exact (List.mem_filter.mp hsr).2
      · exact (List.mem_filter.mp huid).2
    rwa [allows_only, decide_eq_true_eq] at hallows
  groups := ⟨rfl, rfl⟩
  messages n hn := by
    obtain ⟨n', -, rfl⟩ := List.mem_map.mp hn
    rfl
  count := rfl
  summary := rfl

/-! ## Redacting again -/

lemma orgWide_redact (repos : Finset String) (r : BlastRadiusResult) :
    (redactBlastRadiusForVisibility (.only repos) r).orgWide =
      orgView (visibleItems (.only repos) (·.breaking) r)
        (visibleItems (.only repos) (·.warnings) r) (visibleItems (.only repos) (·.info) r)
        (r.orgWide.map (·.sourceServer)) := redactOrgWide_eq r

lemma visibleItems_idem (list : OrgWideImpact → List OrgImpactItem) (r : BlastRadiusResult) :
    (visibleItems visible list r).filter (·.isVisible visible) = visibleItems visible list r := by
  rw [visibleItems, List.filter_filter]
  simp

/-- The org items that are left are the visible ones. -/
lemma visibleItems_redact (repos : Finset String) (r : BlastRadiusResult) :
    let left := redactBlastRadiusForVisibility (.only repos) r
    visibleItems (.only repos) (·.breaking) left = visibleItems (.only repos) (·.breaking) r ∧
      visibleItems (.only repos) (·.warnings) left = visibleItems (.only repos) (·.warnings) r ∧
      visibleItems (.only repos) (·.info) left = visibleItems (.only repos) (·.info) r := by
  intro left
  have hleft : left.orgWide = _ := orgWide_redact repos r
  cases hview : left.orgWide with
  | some org =>
    have hlist : ∀ list, visibleItems (.only repos) list left =
        (list org).filter (·.isVisible (.only repos)) := by
      intro list
      rw [visibleItems, hview]
      rfl
    rw [hview] at hleft
    obtain ⟨hbreaking, hwarnings, hinfo, -⟩ := orgView_eq_some hleft.symm
    rw [hlist, hlist, hlist, hbreaking, hwarnings, hinfo]
    exact ⟨visibleItems_idem _ r, visibleItems_idem _ r, visibleItems_idem _ r⟩
  | none =>
    have hlist : ∀ list, visibleItems (.only repos) list left = [] := by
      intro list
      rw [visibleItems, hview]
      rfl
    -- an org-wide view is dropped only when no item is visible
    have hempty : visibleItems (.only repos) (·.breaking) r ++
        visibleItems (.only repos) (·.warnings) r ++ visibleItems (.only repos) (·.info) r = [] := by
      cases horg : r.orgWide with
      | none => simp [visibleItems, horg]
      | some org =>
        rw [hview, orgView] at hleft
        split_ifs at hleft with hnil
        · exact hnil
        · rw [horg] at hleft
          cases hleft
    rw [List.append_eq_nil_iff, List.append_eq_nil_iff] at hempty
    rw [hlist, hlist, hlist]
    exact ⟨hempty.1.1.symm, hempty.1.2.symm, hempty.2.symm⟩

/-- **Redacting again changes nothing.** -/
lemma redact_redact (repos : Finset String) (r : BlastRadiusResult) :
    redactBlastRadiusForVisibility (.only repos) (redactBlastRadiusForVisibility (.only repos) r) =
      redactBlastRadiusForVisibility (.only repos) r := by
  obtain ⟨hbreaking, hwarnings, hinfo⟩ := visibleItems_redact repos r
  have hfilter : ∀ {α : Type} (p : α → Bool) (xs : List α), (xs.filter p).filter p = xs.filter p := by
    intro α p xs
    rw [List.filter_filter]
    simp
  refine redact_eq_of_agree ⟨hfilter _ _, hfilter _ _, hfilter _ _, hbreaking, hwarnings, hinfo,
    hfilter _ _, hfilter _ _, hfilter _ _, hfilter _ _, rfl, rfl, rfl, rfl, rfl, rfl, ?_⟩ ?_
  · change (r.notifications.map (·.redact)).map _ = _
    rw [List.map_map]
    rfl
  · intro hne
    rw [hbreaking, hwarnings, hinfo] at hne
    rw [orgWide_redact, orgView, if_neg hne]
    cases r.orgWide <;> rfl

/-- **Redaction**: with everything visible it changes nothing.  With some repositories visible, two results
with the same visible rows, the same fields that are kept on purpose and, where an org-wide view is left, the
same upstream server become equal; what is left refers to visible repositories only, its counts and its summary are
those of its rows; and redacting it again changes nothing. -/
theorem redactBlastRadiusForVisibility_noninterference :
    (∀ r, redactBlastRadiusForVisibility .all r = r) ∧
      ∀ repos : Finset String,
        (∀ r r', AgreeOn (.only repos) r r' → SameServer (.only repos) r r' →
          redactBlastRadiusForVisibility (.only repos) r =
            redactBlastRadiusForVisibility (.only repos) r') ∧
        ∀ r, OnlyVisible repos (redactBlastRadiusForVisibility (.only repos) r) ∧
          redactBlastRadiusForVisibility (.only repos)
              (redactBlastRadiusForVisibility (.only repos) r) =
            redactBlastRadiusForVisibility (.only repos) r :=
  ⟨fun _ => rfl, fun repos => ⟨fun _ _ => redact_eq_of_agree,
    fun r => ⟨onlyVisible_redact repos r, redact_redact repos r⟩⟩⟩

/-- A result with one breaking item between two visible repositories. -/
def orgResult (sourceServer : String) : BlastRadiusResult where
  changedSymbols := []
  affectedSymbols := []
  affectedSymbolCount := 0
  affectedClusters := []
  topLevelCallees := []
  riskLevel := .low
  summary := ""
  orgWide := some
    { breaking := [⟨"f", "SignatureChanged", "repo:i:a", "g", "repo:i:b", "b", "b.rs", 1, "BREAKING", ""⟩]
      warnings := []
      info := []
      impactedRepos := ["b"]
      sourceServer }
  status := .complete
  notifications := []
  resolverStaleRepos := []
  gateState := .ok
  coverage := ⟨[], [], [], false⟩
  blindSpots := []
  cochangedFiles := []
  analysisDirection := ""

/-- The same with an affected symbol of a hidden repository, and a cluster. -/
def hiddenResult (sourceServer : String) : BlastRadiusResult :=
  { orgResult sourceServer with
    affectedSymbols := [⟨"sym:c", "h", "c.rs", "Function", 1, "CALLS", 1, 1, 1, "repo:i:c", true⟩]
    affectedClusters := [⟨0, "c", 1, 7, 1⟩] }

theorem redact_hides_repo :
    redactBlastRadiusForVisibility (.only {"repo:i:a", "repo:i:b"}) (hiddenResult "local") =
      redactBlastRadiusForVisibility (.only {"repo:i:a", "repo:i:b"}) (orgResult "local") :=
  (redactBlastRadiusForVisibility_noninterference.2 {"repo:i:a", "repo:i:b"}).1 _ _
    (by constructor <;> decide +kernel) (fun _ => rfl)

/-- The name of the upstream server is not redacted. -/
theorem redact_keeps_sourceServer :
    AgreeOn (.only {"repo:i:a", "repo:i:b"}) (orgResult "local") (orgResult "upstream") ∧
      redactBlastRadiusForVisibility (.only {"repo:i:a", "repo:i:b"}) (orgResult "local") ≠
        redactBlastRadiusForVisibility (.only {"repo:i:a", "repo:i:b"}) (orgResult "upstream") := by
  refine ⟨?_, by decide +kernel⟩
  constructor <;> decide +kernel

end Authz
end NestWeaver
