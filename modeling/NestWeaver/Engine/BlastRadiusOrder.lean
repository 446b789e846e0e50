import Mathlib.Data.List.Perm.Basic
import Mathlib.Data.String.Basic
import Mathlib.Order.Bounds.Basic
import NestWeaver.Engine.BlastRadius
import NestWeaver.Store.Traverse.CallerPaths

/-!
# Blast radius and the order of the changed files

Both loops of the analysis keep first-seen elements: of each changed symbol its first row, of each
affected symbol the first node a walk returned for it (`buffered_eq`).  So an affected symbol is
reported with the node of the first changed file that surfaces it (`mem_buffered`), and every
changed file can be the first (`mem_buffered_first`).  The report is independent of the order, and
carries the largest scores, exactly when any two changed files that surface the same symbol do so
alike and with the largest score (`orderIndependent_iff`).
-/

set_option linter.all false

namespace NestWeaver
namespace BlastRadius

open Traverse WorkLoop

variable {g : GraphStore} {o : BlastRadiusOptions} {classify : String → ChangedFileClass}
  {files files' : List String} {file : String} {cs cs' : ChangedSymbol} {node : ImpactNode}
  {entry entry' : ImpactNode × ChangedSymbol}

/-! ## The changed symbols -/

variable (g o classify) in
/-- The changed symbols of a file. -/
def fileChanged (file : String) : List ChangedSymbol :=
  ((fileSymbols g o classify file).filter fun s => !s.isModuleOwner).map .ofSymbol

lemma mem_symbols_of_fileSymbols {s : Symbol} (h : s ∈ fileSymbols g o classify file) :
    s ∈ g.symbols := by
  unfold fileSymbols GraphStore.symbolsInFileInRepo GraphStore.symbolsInFile at h
  split at h
  · cases h
  · split at h <;> exact (List.mem_filter.mp h).1

/-- A changed symbol is determined by its uid. -/
lemma fileChanged_key {file' : String} (h : cs ∈ fileChanged g o classify file)
    (h' : cs' ∈ fileChanged g o classify file') (huid : cs.uid = cs'.uid) : cs = cs' := by
  obtain ⟨s, hs, rfl⟩ := List.mem_map.mp h
  obtain ⟨s', hs', rfl⟩ := List.mem_map.mp h'
  have hmem := mem_symbols_of_fileSymbols (List.mem_filter.mp hs).1
  have hmem' := mem_symbols_of_fileSymbols (List.mem_filter.mp hs').1
  rw [g.uid_key s hmem s' hmem' huid]

/-- The loop over the symbols of the changed files keeps the first row of each changed symbol. -/
lemma foldl_changedStep (syms : List Symbol) (st : ChangedState) :
    let st' := syms.foldl changedStep st
    (st'.changedUids, st'.changedSymbols) =
        ((syms.filter fun s => !s.isModuleOwner).map ChangedSymbol.ofSymbol).foldl
          (firstSeenStep ChangedSymbol.uid) (st.changedUids, st.changedSymbols) ∧
      ∀ repo, repo ∈ st'.changedRepos ↔ repo ∈ st.changedRepos ∨ ∃ s ∈ syms, s.repoUid = repo := by
  induction syms generalizing st with
  | nil => simp
  | cons s syms ih =>
    obtain ⟨hsyms, hrepos⟩ := ih (changedStep st s)
    refine ⟨?_, fun repo => ?_⟩
    · rw [List.foldl_cons, hsyms]
      by_cases howner : s.isModuleOwner = true
      · have hstep : changedStep st s =
            { st with changedRepos := insert s.repoUid st.changedRepos } := if_pos howner
        rw [hstep, List.filter_cons_of_neg (by simp [howner])]
      · rw [List.filter_cons_of_pos (by simp [howner]), List.map_cons, List.foldl_cons]
        congr 1
        have huid : (ChangedSymbol.ofSymbol s).uid = s.uid := rfl
        simp only [changedStep, firstSeenStep, if_neg howner, huid]
        split_ifs <;> rfl
    · have hstep : repo ∈ (changedStep st s).changedRepos ↔
          repo ∈ st.changedRepos ∨ s.repoUid = repo := by
        have hfield : (changedStep st s).changedRepos = insert s.repoUid st.changedRepos := by
          simp only [changedStep]
          split_ifs <;> rfl
        rw [hfield, Finset.mem_insert, or_comm, eq_comm]
      rw [List.foldl_cons, hrepos, hstep, List.exists_mem_cons_iff, or_assoc]

variable (g o classify files) in
lemma changedState_eq :
    changedState g o classify files =
      (files.flatMap (fileSymbols g o classify)).foldl changedStep ⟨∅, [], ∅⟩ :=
  (List.foldl_flatMap).symm

variable (g o classify files) in
lemma flatMap_fileChanged :
    ((files.flatMap (fileSymbols g o classify)).filter fun s => !s.isModuleOwner).map
      ChangedSymbol.ofSymbol = files.flatMap (fileChanged g o classify) := by
  rw [List.filter_flatMap, List.map_flatMap]
  rfl

variable (g o classify files) in
lemma changedSymbols_eq :
    (changedState g o classify files).changedSymbols =
      firstSeen ChangedSymbol.uid (files.flatMap (fileChanged g o classify)) := by
  have h := (foldl_changedStep (files.flatMap (fileSymbols g o classify)) ⟨∅, [], ∅⟩).1
  rw [flatMap_fileChanged, ← changedState_eq] at h
  exact congrArg Prod.snd h

/-- The changed symbols are those of the changed files. -/
lemma mem_changedSymbols :
    cs ∈ (changedState g o classify files).changedSymbols ↔
      ∃ file ∈ files, cs ∈ fileChanged g o classify file := by
  rw [changedSymbols_eq]
  constructor
  · exact fun h => List.mem_flatMap.mp (mem_of_mem_firstSeen h)
  · rintro ⟨file, hfile, hcs⟩
    have hmem := List.mem_flatMap.mpr ⟨file, hfile, hcs⟩
    rw [mem_firstSeen]
    cases hfind : (files.flatMap (fileChanged g o classify)).find? fun y => y.uid = cs.uid with
    | none => exact absurd (List.find?_eq_none.mp hfind cs hmem) (by simp)
    | some cs' =>
      obtain ⟨file', -, hcs'⟩ := List.mem_flatMap.mp (List.mem_of_find?_eq_some hfind)
      rw [fileChanged_key hcs' hcs (by simpa using List.find?_some hfind)]

/-- The uids of the changed files. -/
def IsChanged (g : GraphStore) (o : BlastRadiusOptions) (classify : String → ChangedFileClass)
    (files : List String) (uid : String) : Prop :=
  ∃ file ∈ files, ∃ cs ∈ fileChanged g o classify file, cs.uid = uid

lemma mem_changedUids {uid : String} :
    uid ∈ (changedState g o classify files).changedUids ↔ IsChanged g o classify files uid := by
  have h := (foldl_changedStep (files.flatMap (fileSymbols g o classify)) ⟨∅, [], ∅⟩).1
  rw [flatMap_fileChanged, ← changedState_eq] at h
  rw [show (changedState g o classify files).changedUids = _ from congrArg Prod.fst h,
    mem_foldl_firstSeenStep]
  simp only [Finset.notMem_empty, false_or, List.mem_flatMap, IsChanged]
  constructor
  · rintro ⟨cs, ⟨file, hfile, hcs⟩, huid⟩
    exact ⟨file, hfile, cs, hcs, huid⟩
  · rintro ⟨file, hfile, cs, hcs, huid⟩
    exact ⟨cs, ⟨file, hfile, hcs⟩, huid⟩

lemma mem_changedRepos {repo : String} :
    repo ∈ (changedState g o classify files).changedRepos ↔
      ∃ file ∈ files, ∃ s ∈ fileSymbols g o classify file, s.repoUid = repo := by
  have h := (foldl_changedStep (files.flatMap (fileSymbols g o classify)) ⟨∅, [], ∅⟩).2 repo
  rw [← changedState_eq] at h
  rw [h]
  simp only [Finset.notMem_empty, false_or, List.mem_flatMap]
  constructor
  · rintro ⟨s, ⟨file, hfile, hs⟩, hrepo⟩
    exact ⟨file, hfile, s, hs, hrepo⟩
  · rintro ⟨file, hfile, s, hs, hrepo⟩
    exact ⟨s, ⟨file, hfile, hs⟩, hrepo⟩

/-- Which repos have a changed symbol does not depend on the order. -/
lemma changedRepos_perm (h : files'.Perm files) :
    (changedState g o classify files').changedRepos =
      (changedState g o classify files).changedRepos := by
  ext repo
  rw [mem_changedRepos, mem_changedRepos]
  exact exists_congr fun file => and_congr_left fun _ => h.mem_iff

lemma isChanged_perm (h : files'.Perm files) {uid : String} :
    IsChanged g o classify files' uid ↔ IsChanged g o classify files uid :=
  exists_congr fun _ => and_congr_left fun _ => h.mem_iff

/-! ## The buffered nodes -/

variable (g o) in
/-- The nodes the walk from a changed symbol returns. -/
def reachedNodes (cs : ChangedSymbol) : List ImpactNode :=
  match impactWalk (impactArgs g o cs.uid) with
  | .ok result => result.nodes
  | .error _ => []

variable (g o) in
/-- They are nodes the walk recorded, and the walk is not cancelled. -/
lemma exists_impactWalk (cs : ChangedSymbol) :
    ∃ result, impactWalk (impactArgs g o cs.uid) = .ok result ∧ reachedNodes g o cs = result.nodes ∧
      ∃ st, Reaches (walkStep (impactArgs g o cs.uid)) (impactArgs g o cs.uid).init st ∧
        result = st.result (impactArgs g o cs.uid) := by
  obtain ⟨fuel, hrun⟩ := runImpactWalk_impactWalk (impactArgs g o cs.uid)
  cases hwalk : impactWalk (impactArgs g o cs.uid) with
  | error e =>
    rw [hwalk] at hrun
    obtain ⟨st, -, hstep⟩ := runLoop_eq_some hrun
    exact absurd hstep (walkStep_not_error rfl)
  | ok result =>
    rw [hwalk] at hrun
    obtain ⟨st, hreach, -, hresult⟩ := runImpactWalk_ok hrun
    exact ⟨result, rfl, by rw [reachedNodes, hwalk], st, hreach, hresult⟩

variable (g o) in
/-- The same nodes, each with the changed symbol. -/
def reachPairs (cs : ChangedSymbol) : List (ImpactNode × ChangedSymbol) :=
  (reachedNodes g o cs).map fun node => (node, cs)

lemma mem_reachPairs :
    entry ∈ reachPairs g o cs ↔ entry.1 ∈ reachedNodes g o cs ∧ entry.2 = cs := by
  obtain ⟨node, cs'⟩ := entry
  simp only [reachPairs, List.mem_map, Prod.mk.injEq]
  constructor
  · rintro ⟨n, hn, rfl, rfl⟩
    exact ⟨hn, rfl⟩
  · rintro ⟨hn, rfl⟩
    exact ⟨node, hn, rfl, rfl⟩

/-- The loop over the walks keeps of each unchanged symbol the first node. -/
lemma traverseChanged_eq (changedUids : Finset String) (css : List ChangedSymbol)
    (st : AffectedState) (truncated : Bool) :
    (traverseChanged g o changedUids css st truncated).1 =
      ((css.flatMap (reachPairs g o)).filter fun entry => entry.1.uid ∉ changedUids).foldl
        (firstSeenStep fun entry => entry.1.uid) st := by
  induction css generalizing st truncated with
  | nil => rfl
  | cons cs css ih =>
    obtain ⟨result, hwalk, hnodes, -⟩ := exists_impactWalk g o cs
    have hmerge : result.nodes.foldl (mergeNode changedUids cs) st =
        ((reachPairs g o cs).filter fun entry => entry.1.uid ∉ changedUids).foldl
          (firstSeenStep fun entry => entry.1.uid) st := by
      rw [List.foldl_filter, reachPairs, hnodes, List.foldl_map]
      refine List.foldl_ext _ _ _ fun st' n _ => ?_
      by_cases hchanged : n.uid ∈ changedUids <;> simp [mergeNode, firstSeenStep, hchanged]
    rw [List.flatMap_cons, List.filter_append, List.foldl_append, traverseChanged, hwalk, ← hmerge]
    exact ih _ _

variable (g o classify files) in
/-- The affected nodes of a run, with the changed symbols that surfaced them. -/
def buffered : List (ImpactNode × ChangedSymbol) :=
  (traverseChanged g o (changedState g o classify files).changedUids
    (changedState g o classify files).changedSymbols (∅, []) false).1.2

variable (g o classify files) in
lemma buffered_eq :
    buffered g o classify files =
      firstSeen (fun entry => entry.1.uid)
        (((changedState g o classify files).changedSymbols.flatMap (reachPairs g o)).filter
          fun entry => entry.1.uid ∉ (changedState g o classify files).changedUids) := by
  rw [buffered, traverseChanged_eq]
  rfl

variable (g o classify) in
/-- The node a changed file surfaces a symbol with: the first one a walk from the file's symbols, in
the order of the file, returns for it. -/
def surfaced (file uid : String) : Option (ImpactNode × ChangedSymbol) :=
  ((fileChanged g o classify file).flatMap (reachPairs g o)).find? fun entry => entry.1.uid = uid

lemma surfaced_eq_some {uid : String} (h : surfaced g o classify file uid = some entry) :
    entry.1.uid = uid ∧ entry.2 ∈ fileChanged g o classify file ∧
      entry.1 ∈ reachedNodes g o entry.2 := by
  obtain ⟨cs, hcs, hentry⟩ := List.mem_flatMap.mp (List.mem_of_find?_eq_some h)
  obtain ⟨hnode, rfl⟩ := mem_reachPairs.mp hentry
  exact ⟨by simpa using List.find?_some h, hcs, hnode⟩

/-- An affected symbol is reported with the node of the first file that surfaces it. -/
lemma mem_buffered :
    entry ∈ buffered g o classify files ↔
      ¬IsChanged g o classify files entry.1.uid ∧
        files.findSome? (fun file => surfaced g o classify file entry.1.uid) = some entry := by
  have hfind : ¬IsChanged g o classify files entry.1.uid →
      (((changedState g o classify files).changedSymbols.flatMap (reachPairs g o)).filter
          fun e => e.1.uid ∉ (changedState g o classify files).changedUids).find?
          (fun e => e.1.uid = entry.1.uid) =
        files.findSome? fun file => surfaced g o classify file entry.1.uid := by
    intro hunchanged
    have hunchanged' : entry.1.uid ∉ (changedState g o classify files).changedUids := by
      rwa [mem_changedUids]
    have hpred : (fun e : ImpactNode × ChangedSymbol =>
        decide (decide (e.1.uid ∉ (changedState g o classify files).changedUids) = true ∧
          decide (e.1.uid = entry.1.uid) = true)) = fun e => decide (e.1.uid = entry.1.uid) := by
      funext e
      by_cases huid : e.1.uid = entry.1.uid <;> simp [huid, hunchanged']
    rw [List.find?_filter, hpred]
    rw [List.find?_flatMap, changedSymbols_eq, findSome?_firstSeen, ← List.find?_flatMap,
      List.flatMap_assoc, List.find?_flatMap]
    · rfl
    · intro cs hcs cs' hcs' huid
      obtain ⟨file, -, hfile⟩ := List.mem_flatMap.mp hcs
      obtain ⟨file', -, hfile'⟩ := List.mem_flatMap.mp hcs'
      rw [fileChanged_key hfile hfile' huid]
  rw [buffered_eq]
  constructor
  · intro h
    have hunchanged : ¬IsChanged g o classify files entry.1.uid := by
      have hmem := List.mem_filter.mp (mem_of_mem_firstSeen h)
      rw [← mem_changedUids]
      simpa using hmem.2
    exact ⟨hunchanged, (hfind hunchanged) ▸ mem_firstSeen.mp h⟩
  · rintro ⟨hunchanged, h⟩
    exact mem_firstSeen.mpr ((hfind hunchanged).trans h)

lemma surfaced_of_mem_buffered (h : entry ∈ buffered g o classify files) :
    ∃ file ∈ files, surfaced g o classify file entry.1.uid = some entry := by
  obtain ⟨-, hfind⟩ := mem_buffered.mp h
  exact List.exists_of_findSome?_eq_some hfind

/-- A symbol is affected when some changed file surfaces it, in whatever order. -/
lemma mem_buffered_perm (h : files'.Perm files) (hmem : entry ∈ buffered g o classify files) :
    ∃ entry' ∈ buffered g o classify files', entry'.1.uid = entry.1.uid := by
  obtain ⟨hunchanged, -⟩ := mem_buffered.mp hmem
  obtain ⟨file, hfile, hsurfaced⟩ := surfaced_of_mem_buffered hmem
  have hsome : (files'.findSome? fun f => surfaced g o classify f entry.1.uid).isSome := by
    rw [List.findSome?_isSome_iff]
    exact ⟨file, h.mem_iff.mpr hfile, by rw [hsurfaced]; rfl⟩
  obtain ⟨entry', hfind⟩ := Option.isSome_iff_exists.mp hsome
  obtain ⟨f, -, hf⟩ := List.exists_of_findSome?_eq_some hfind
  have huid := (surfaced_eq_some hf).1
  refine ⟨entry', mem_buffered.mpr ⟨?_, ?_⟩, huid⟩
  · rwa [huid, isChanged_perm h]
  · rw [huid, hfind]

/-- With a file in front, the symbols it surfaces are reported as it surfaces them. -/
lemma mem_buffered_first {uid : String} (hfile : file ∈ files)
    (hunchanged : ¬IsChanged g o classify files uid)
    (h : surfaced g o classify file uid = some entry) :
    entry ∈ buffered g o classify (file :: files.erase file) := by
  obtain ⟨huid, -, -⟩ := surfaced_eq_some h
  rw [← huid] at h hunchanged
  refine mem_buffered.mpr ⟨?_, ?_⟩
  · rwa [isChanged_perm (List.perm_cons_erase hfile).symm]
  · rw [List.findSome?_cons, h]

lemma nodup_buffered : ((buffered g o classify files).map fun entry => entry.1.uid).Nodup := by
  rw [buffered_eq]
  exact nodup_firstSeen _ _

lemma buffered_key (h : entry ∈ buffered g o classify files)
    (h' : entry' ∈ buffered g o classify files) (huid : entry.1.uid = entry'.1.uid) :
    entry = entry' :=
  List.inj_on_of_nodup_map nodup_buffered h h' huid

/-! ## What the symbol of a node determines -/

lemma lookup_of_mem {s : Symbol} (hs : s ∈ g.symbols) : g.lookup s.uid = some s := by
  unfold GraphStore.lookup
  cases hfind : g.symbols.find? fun t => t.uid = s.uid with
  | none => exact absurd (List.find?_eq_none.mp hfind s hs) (by simp)
  | some t =>
    rw [g.uid_key t (List.mem_of_find?_eq_some hfind) s hs (by simpa using List.find?_some hfind)]

/-- The uid, the name, the path and the line of a reached node are those of a symbol. -/
lemma reachedNodes_symbol (h : node ∈ reachedNodes g o cs) :
    ∃ s ∈ g.symbols, s.uid = node.uid ∧ s.name = node.name ∧ s.filePath = node.filePath ∧
      s.startLine = node.startLine := by
  obtain ⟨result, -, hnodes, st, hreach, rfl⟩ := exists_impactWalk g o cs
  rw [hnodes] at h
  obtain ⟨v, hv⟩ := mem_result_nodes.mp h
  refine node_of_rows (D := fun uid name filePath startLine => ∃ s ∈ g.symbols, s.uid = uid ∧
    s.name = name ∧ s.filePath = filePath ∧ s.startLine = startLine) ?_ hreach v node hv
  intro q uid c types row hrow
  obtain ⟨type, -, hrow⟩ := List.mem_flatMap.mp hrow
  obtain ⟨e, -, hrow⟩ := List.mem_filterMap.mp hrow
  obtain ⟨s, hs, rfl⟩ := Option.map_eq_some_iff.mp hrow
  exact ⟨s, List.mem_of_find?_eq_some hs, by simpa using List.find?_some hs, rfl, rfl, rfl⟩

/-- The symbol of an affected node. -/
lemma buffered_symbol (h : entry ∈ buffered g o classify files) :
    ∃ s ∈ g.symbols, g.lookup entry.1.uid = some s ∧ s.uid = entry.1.uid ∧ s.name = entry.1.name ∧
      s.filePath = entry.1.filePath ∧ s.startLine = entry.1.startLine := by
  obtain ⟨file, -, hsurfaced⟩ := surfaced_of_mem_buffered h
  obtain ⟨s, hs, huid, hdata⟩ := reachedNodes_symbol (surfaced_eq_some hsurfaced).2.2
  exact ⟨s, hs, huid ▸ lookup_of_mem hs, huid, hdata⟩

/-- Nodes of one symbol that agree on what the walk computed are equal. -/
lemma node_eq (h : entry ∈ buffered g o classify files)
    (h' : entry' ∈ buffered g o classify files') (huid : entry.1.uid = entry'.1.uid)
    (hdepth : entry.1.depth = entry'.1.depth) (htype : entry.1.edgeType = entry'.1.edgeType)
    (hconf : entry.1.confidence = entry'.1.confidence)
    (hscore : entry.1.impactScore = entry'.1.impactScore) : entry.1 = entry'.1 := by
  obtain ⟨s, hs, -, hsuid, hname, hpath, hline⟩ := buffered_symbol h
  obtain ⟨s', hs', -, hsuid', hname', hpath', hline'⟩ := buffered_symbol h'
  obtain rfl := g.uid_key s hs s' hs' (hsuid.trans (huid.trans hsuid'.symm))
  obtain ⟨⟨uid, name, path, line, type, conf, depth, score⟩, cs⟩ := entry
  obtain ⟨⟨uid', name', path', line', type', conf', depth', score'⟩, cs'⟩ := entry'
  simp_all

/-- An org-wide item names its affected symbol. -/
lemma orgItem_key {repos repos' : Finset String} {item : OrgImpactItem}
    (h : entry ∈ buffered g o classify files) (h' : entry' ∈ buffered g o classify files')
    (hitem : orgItem g repos entry = some item) (hitem' : orgItem g repos' entry' = some item) :
    entry.1.uid = entry'.1.uid := by
  obtain ⟨s, hs, hlookup, huid, hname, hpath, hline⟩ := buffered_symbol h
  obtain ⟨s', hs', hlookup', huid', hname', hpath', hline'⟩ := buffered_symbol h'
  have hrepo : affectedRepo g entry.1 = s.repoUid := by rw [affectedRepo, hlookup]
  have hrepo' : affectedRepo g entry'.1 = s'.repoUid := by rw [affectedRepo, hlookup']
  simp only [orgItem, hrepo, hrepo', Option.ite_none_right_eq_some, Option.some.injEq]
    at hitem hitem'
  obtain ⟨-, rfl⟩ := hitem
  obtain ⟨-, heq⟩ := hitem'
  simp only [OrgImpactItem.mk.injEq] at heq
  obtain ⟨-, -, -, hdisplay, hrepos, -, hfile, hlines, -, -⟩ := heq
  rw [← hname, ← hname', ← hpath, ← hpath'] at hdisplay
  rw [← hpath, ← hpath'] at hfile
  rw [hfile] at hdisplay
  have hnames : s'.name = s.name :=
    symbolDisplayName_inj (g.not_owner_label s' hs' _) (g.not_owner_label s hs _) hdisplay
  rw [← huid, ← huid', g.uid_of_fields s hs s' hs' hrepos.symm hfile.symm hnames.symm
    (by rw [hline, hline', hlines])]

/-! ## The report -/

variable (g o classify files) in
/-- The affected symbols before the limit. -/
def affectedList : List AffectedSymbol :=
  ((buffered g o classify files).map fun entry => affectedSymbol g entry.1).insertionSort
    AffectedSymbol.Before

lemma mem_affectedList {a : AffectedSymbol} :
    a ∈ affectedList g o classify files ↔
      ∃ entry ∈ buffered g o classify files, affectedSymbol g entry.1 = a := by
  rw [affectedList, List.mem_insertionSort, List.mem_map]

lemma affectedList_key {a b : AffectedSymbol} (ha : a ∈ affectedList g o classify files)
    (hb : b ∈ affectedList g o classify files) (huid : a.uid = b.uid) : a = b := by
  obtain ⟨entry, hentry, rfl⟩ := mem_affectedList.mp ha
  obtain ⟨entry', hentry', rfl⟩ := mem_affectedList.mp hb
  rw [buffered_key hentry hentry' huid]

instance : Std.Total AffectedSymbol.Before where
  total a b := by
    rcases lt_trichotomy a.impactScore b.impactScore with h | h | h
    · exact .inr (.inl h)
    · exact (le_total a.uid b.uid).imp (fun huid => .inr ⟨h.symm, huid⟩) fun huid => .inr ⟨h, huid⟩
    · exact .inl (.inl h)

instance : IsTrans AffectedSymbol AffectedSymbol.Before where
  trans a b c := by
    rintro (hab | ⟨hab, hab'⟩) (hbc | ⟨hbc, hbc'⟩)
    · exact .inl (hbc.trans hab)
    · exact .inl (hbc ▸ hab)
    · exact .inl (hab ▸ hbc)
    · exact .inr ⟨hbc.trans hab, hab'.trans hbc'⟩

/-- The final order is that of the scores and the uids: the same symbols are listed alike. -/
lemma affectedList_eq (h : ∀ a, a ∈ affectedList g o classify files' ↔
    a ∈ affectedList g o classify files) :
    affectedList g o classify files' = affectedList g o classify files := by
  have hsorted : ∀ fs, (affectedList g o classify fs).Pairwise AffectedSymbol.Before :=
    fun fs => List.pairwise_insertionSort _ _
  have hnodup : ∀ fs, (affectedList g o classify fs).Nodup := by
    intro fs
    rw [affectedList, (List.perm_insertionSort _ _).nodup_iff]
    refine List.Nodup.of_map AffectedSymbol.uid ?_
    rw [List.map_map]
    exact nodup_buffered
  refine List.Perm.eq_of_pairwise ?_ (hsorted files') (hsorted files)
    ((List.perm_ext_iff_of_nodup (hnodup files') (hnodup files)).mpr h)
  intro a b ha hb hab hba
  refine affectedList_key ((h a).mp ha) hb ?_
  obtain hab | ⟨hscore, huid⟩ := hab
  · obtain hba | ⟨hscore, -⟩ := hba
    · exact absurd hab hba.asymm
    · exact absurd hab hscore.le.not_gt
  · obtain hba | ⟨-, huid'⟩ := hba
    · exact absurd hba hscore.le.not_gt
    · exact le_antisymm huid huid'

lemma traverseChanged_limit (limit : Option ℕ) (changedUids : Finset String)
    (css : List ChangedSymbol) (st : AffectedState) (truncated : Bool) :
    traverseChanged g { o with limit } changedUids css st truncated =
      traverseChanged g o changedUids css st truncated := by
  induction css generalizing st truncated with
  | nil => rfl
  | cons cs css ih =>
    obtain ⟨result, hwalk, -⟩ := exists_impactWalk g o cs
    have hwalk' : impactWalk (impactArgs g { o with limit } cs.uid) = .ok result := hwalk
    rw [traverseChanged, traverseChanged, hwalk, hwalk']
    exact ih _ _

/-- The limit is taken last. -/
lemma analyzeBlastRadius_affected (limit : Option ℕ) :
    (analyzeBlastRadius g { o with limit } classify files).affectedSymbols =
      applyLimit limit (affectedList g o classify files) := by
  have h : (analyzeBlastRadius g { o with limit } classify files).affectedSymbols =
      applyLimit limit (((traverseChanged g { o with limit }
        (changedState g o classify files).changedUids
        (changedState g o classify files).changedSymbols (∅, []) false).1.2.map
          fun entry => affectedSymbol g entry.1).insertionSort AffectedSymbol.Before) := rfl
  rw [h, traverseChanged_limit]
  rfl

lemma mem_of_mem_applyLimit {limit : Option ℕ} {affected : List AffectedSymbol} {a : AffectedSymbol}
    (h : a ∈ applyLimit limit affected) : a ∈ affected := by
  unfold applyLimit at h
  split at h
  · split_ifs at h
    · exact List.mem_of_mem_take h
    · exact h
  · exact h

/-- The org-wide items of a severity. -/
def BlastRadiusResult.orgItems (r : BlastRadiusResult) (severity : OrgSeverity) :
    List OrgImpactItem :=
  match r.orgWide with
  | none => []
  | some impact =>
    match severity with
    | .breaking => impact.breaking
    | .warning => impact.warnings
    | .info => impact.info

lemma mem_orgItems {limit : Option ℕ} {severity : OrgSeverity} {item : OrgImpactItem} :
    item ∈ (analyzeBlastRadius g { o with limit } classify files).orgItems severity ↔
      item.severity = severity ∧ ∃ entry ∈ buffered g o classify files,
        orgItem g (changedState g o classify files).changedRepos entry = some item := by
  have h : (analyzeBlastRadius g { o with limit } classify files).orgWide =
      orgWideImpact g ((traverseChanged g { o with limit }
        (changedState g o classify files).changedUids
        (changedState g o classify files).changedSymbols (∅, []) false).1.2.filterMap
          (orgItem g (changedState g o classify files).changedRepos)) := rfl
  have hmem : ∀ items : List OrgImpactItem,
      item ∈ (match orgWideImpact g items with
        | none => []
        | some impact =>
          match severity with
          | .breaking => impact.breaking
          | .warning => impact.warnings
          | .info => impact.info : List OrgImpactItem) ↔
        item.severity = severity ∧ item ∈ items := by
    intro items
    unfold orgWideImpact
    split_ifs with hnil
    · simp [hnil]
    · cases severity <;> simp [and_comm]
  rw [BlastRadiusResult.orgItems, h, hmem, traverseChanged_limit, List.mem_filterMap]
  rfl

/-! ## Independence of the order -/

/-- Two runs report the same affected symbols, with their scores, depths and edge data, and of each
severity the same org-wide items. -/
structure SameReport (r r' : BlastRadiusResult) : Prop where
  affected : r.affectedSymbols = r'.affectedSymbols
  items : ∀ severity item, item ∈ r.orgItems severity ↔ item ∈ r'.orgItems severity

/-- The scores with which changed symbols reach a symbol. -/
def reachingScores (g : GraphStore) (o : BlastRadiusOptions) (changed : List ChangedSymbol)
    (uid : String) : Set ℚ :=
  {score | ∃ cs ∈ changed, ∃ node ∈ reachedNodes g o cs, node.uid = uid ∧ node.impactScore = score}

/-- In every order of the changed files, and at every display limit, the analysis reports the same,
and every affected symbol with the largest score with which a changed symbol reaches it. -/
def OrderIndependent (g : GraphStore) (o : BlastRadiusOptions)
    (classify : String → ChangedFileClass) (files : List String) : Prop :=
  ∀ limit files', files'.Perm files →
    SameReport (analyzeBlastRadius g { o with limit } classify files')
        (analyzeBlastRadius g { o with limit } classify files) ∧
      ∀ a ∈ (analyzeBlastRadius g { o with limit } classify files').affectedSymbols,
        IsGreatest (reachingScores g o
          (analyzeBlastRadius g { o with limit } classify files').changedSymbols a.uid) a.impactScore

/-- A node in a repo with no symbol of a changed file. -/
def CrossRepo (g : GraphStore) (o : BlastRadiusOptions) (classify : String → ChangedFileClass)
    (files : List String) (node : ImpactNode) : Prop :=
  affectedRepo g node ≠ "" ∧
    ∀ file ∈ files, ∀ s ∈ fileSymbols g o classify file, s.repoUid ≠ affectedRepo g node

/-- Changed files that surface the same unchanged symbol do so with the same depth and edge data,
with the largest score any changed file's symbols reach it with, and, for a symbol in another repo,
by changed symbols of one name, kind and repo. -/
structure SurfacesAlike (g : GraphStore) (o : BlastRadiusOptions)
    (classify : String → ChangedFileClass) (files : List String) : Prop where
  greatest : ∀ file ∈ files, ∀ uid entry, ¬IsChanged g o classify files uid →
    surfaced g o classify file uid = some entry →
    ∀ file' ∈ files, ∀ cs ∈ fileChanged g o classify file', ∀ node ∈ reachedNodes g o cs,
      node.uid = uid → node.impactScore ≤ entry.1.impactScore
  alike : ∀ file ∈ files, ∀ file' ∈ files, ∀ uid entry entry', ¬IsChanged g o classify files uid →
    surfaced g o classify file uid = some entry → surfaced g o classify file' uid = some entry' →
    entry.1.depth = entry'.1.depth ∧ entry.1.edgeType = entry'.1.edgeType ∧
      entry.1.confidence = entry'.1.confidence
  change : ∀ file ∈ files, ∀ file' ∈ files, ∀ uid entry entry', ¬IsChanged g o classify files uid →
    surfaced g o classify file uid = some entry → surfaced g o classify file' uid = some entry' →
    CrossRepo g o classify files entry.1 →
    entry.2.name = entry'.2.name ∧ entry.2.kind = entry'.2.kind ∧
      entry.2.repoUid = entry'.2.repoUid

lemma orgItem_eq_some {item : OrgImpactItem}
    (h : orgItem g (changedState g o classify files).changedRepos entry = some item) :
    CrossRepo g o classify files entry.1 ∧ item.changeName = entry.2.name ∧
      item.changeKind = entry.2.kind ∧ item.changeRepoUid = entry.2.repoUid := by
  simp only [orgItem, Option.ite_none_right_eq_some, Option.some.injEq] at h
  obtain ⟨⟨hne, hrepo⟩, rfl⟩ := h
  rw [mem_changedRepos] at hrepo
  exact ⟨⟨hne, fun file hfile s hs heq => hrepo ⟨file, hfile, s, hs, heq⟩⟩, rfl, rfl, rfl⟩

lemma exists_orgItem (h : CrossRepo g o classify files entry.1) :
    ∃ item, orgItem g (changedState g o classify files).changedRepos entry = some item := by
  have hrepo : affectedRepo g entry.1 ∉ (changedState g o classify files).changedRepos := by
    rw [mem_changedRepos]
    exact fun ⟨file, hfile, s, hs, heq⟩ => h.2 file hfile s hs heq
  exact ⟨_, if_pos ⟨h.1, hrepo⟩⟩

/-! ### Alike surfacing suffices -/

section Sufficient

variable (halike : SurfacesAlike g o classify files) (hperm : files'.Perm files)

include halike hperm

/-- Under the condition, a symbol is reported with the same node in every order. -/
lemma SurfacesAlike.node_eq (h : entry ∈ buffered g o classify files)
    (h' : entry' ∈ buffered g o classify files') (huid : entry'.1.uid = entry.1.uid) :
    entry.1 = entry'.1 := by
  obtain ⟨hunchanged, -⟩ := mem_buffered.mp h
  obtain ⟨file, hfile, hs⟩ := surfaced_of_mem_buffered h
  obtain ⟨file', hfile', hs'⟩ := surfaced_of_mem_buffered h'
  rw [hperm.mem_iff] at hfile'
  rw [huid] at hs'
  obtain ⟨-, hcs, hnode⟩ := surfaced_eq_some hs
  obtain ⟨-, hcs', hnode'⟩ := surfaced_eq_some hs'
  obtain ⟨hdepth, htype, hconf⟩ := halike.alike file hfile file' hfile' _ _ _ hunchanged hs hs'
  have hle := halike.greatest file hfile _ _ hunchanged hs file' hfile' _ hcs' _ hnode' huid
  have hge := halike.greatest file' hfile' _ _ hunchanged hs' file hfile _ hcs _ hnode rfl
  exact BlastRadius.node_eq h h' huid.symm hdepth htype hconf (le_antisymm hge hle)

lemma SurfacesAlike.mem_affectedList {a : AffectedSymbol} :
    a ∈ affectedList g o classify files' ↔ a ∈ affectedList g o classify files := by
  rw [BlastRadius.mem_affectedList, BlastRadius.mem_affectedList]
  constructor
  · rintro ⟨entry', hentry', rfl⟩
    obtain ⟨entry, hentry, huid⟩ := mem_buffered_perm hperm.symm hentry'
    exact ⟨entry, hentry, by rw [halike.node_eq hperm hentry hentry' huid.symm]⟩
  · rintro ⟨entry, hentry, rfl⟩
    obtain ⟨entry', hentry', huid⟩ := mem_buffered_perm hperm hentry
    exact ⟨entry', hentry', by rw [halike.node_eq hperm hentry hentry' huid]⟩

/-- Under the condition, a symbol has the same org-wide item in every order. -/
lemma SurfacesAlike.orgItem_eq (h : entry ∈ buffered g o classify files)
    (h' : entry' ∈ buffered g o classify files') (huid : entry'.1.uid = entry.1.uid) :
    orgItem g (changedState g o classify files').changedRepos entry' =
      orgItem g (changedState g o classify files).changedRepos entry := by
  have hnode := halike.node_eq hperm h h' huid
  obtain ⟨hunchanged, -⟩ := mem_buffered.mp h
  obtain ⟨file, hfile, hs⟩ := surfaced_of_mem_buffered h
  obtain ⟨file', hfile', hs'⟩ := surfaced_of_mem_buffered h'
  rw [hperm.mem_iff] at hfile'
  rw [huid] at hs'
  rw [changedRepos_perm hperm]
  by_cases hcross : CrossRepo g o classify files entry.1
  · obtain ⟨hname, hkind, hrepo⟩ :=
      halike.change file hfile file' hfile' _ _ _ hunchanged hs hs' hcross
    simp only [orgItem, hnode, hname, hkind, hrepo]
  · -- neither run has an item for the symbol
    have hnone : ∀ e : ImpactNode × ChangedSymbol, e.1 = entry.1 →
        orgItem g (changedState g o classify files).changedRepos e = none := by
      intro e he
      by_contra hsome
      obtain ⟨item, hitem⟩ := Option.ne_none_iff_exists'.mp hsome
      exact hcross (he ▸ (orgItem_eq_some hitem).1)
    rw [hnone entry rfl, hnone entry' hnode.symm]

lemma SurfacesAlike.sameReport (limit : Option ℕ) :
    SameReport (analyzeBlastRadius g { o with limit } classify files')
      (analyzeBlastRadius g { o with limit } classify files) where
  affected := by
    rw [analyzeBlastRadius_affected, analyzeBlastRadius_affected,
      affectedList_eq fun _ => halike.mem_affectedList hperm]
  items severity item := by
    rw [mem_orgItems, mem_orgItems]
    refine and_congr_right fun _ => ⟨?_, ?_⟩
    · rintro ⟨entry', hentry', hitem⟩
      obtain ⟨entry, hentry, huid⟩ := mem_buffered_perm hperm.symm hentry'
      exact ⟨entry, hentry, by rw [← halike.orgItem_eq hperm hentry hentry' huid.symm, hitem]⟩
    · rintro ⟨entry, hentry, hitem⟩
      obtain ⟨entry', hentry', huid⟩ := mem_buffered_perm hperm hentry
      exact ⟨entry', hentry', by rw [halike.orgItem_eq hperm hentry hentry' huid, hitem]⟩

/-- Under the condition, the score reported for a symbol is the largest. -/
lemma SurfacesAlike.isGreatest {limit : Option ℕ} {a : AffectedSymbol}
    (ha : a ∈ (analyzeBlastRadius g { o with limit } classify files').affectedSymbols) :
    IsGreatest (reachingScores g o
      (analyzeBlastRadius g { o with limit } classify files').changedSymbols a.uid)
      a.impactScore := by
  have hchanged : (analyzeBlastRadius g { o with limit } classify files').changedSymbols =
      (changedState g o classify files').changedSymbols := rfl
  rw [analyzeBlastRadius_affected] at ha
  obtain ⟨entry, hentry, rfl⟩ := BlastRadius.mem_affectedList.mp (mem_of_mem_applyLimit ha)
  obtain ⟨hunchanged, -⟩ := mem_buffered.mp hentry
  obtain ⟨file, hfile, hs⟩ := surfaced_of_mem_buffered hentry
  obtain ⟨-, hcs, hnode⟩ := surfaced_eq_some hs
  rw [hchanged]
  constructor
  · exact ⟨entry.2, mem_changedSymbols.mpr ⟨file, hfile, hcs⟩, entry.1, hnode, rfl, rfl⟩
  · rintro score ⟨cs, hcs, node, hnode, huid, rfl⟩
    obtain ⟨file', hfile', hcs⟩ := mem_changedSymbols.mp hcs
    rw [isChanged_perm hperm] at hunchanged
    exact halike.greatest file (hperm.mem_iff.mp hfile) _ _ hunchanged hs file'
      (hperm.mem_iff.mp hfile') cs hcs node hnode huid

end Sufficient

/-! ### Alike surfacing is necessary -/

section Necessary

variable (horder : OrderIndependent g o classify files)

include horder

/-- In an independent run every surfacing of an unchanged symbol is reported. -/
lemma OrderIndependent.mem_affectedList {uid : String} (hfile : file ∈ files)
    (hunchanged : ¬IsChanged g o classify files uid)
    (h : surfaced g o classify file uid = some entry) :
    affectedSymbol g entry.1 ∈ affectedList g o classify files := by
  have hsame := (horder none _ (List.perm_cons_erase hfile).symm).1.affected
  rw [analyzeBlastRadius_affected, analyzeBlastRadius_affected] at hsame
  rw [← show applyLimit none (affectedList g o classify files) = affectedList g o classify files
    from rfl, ← hsame]
  exact BlastRadius.mem_affectedList.mpr ⟨entry, mem_buffered_first hfile hunchanged h, rfl⟩

lemma OrderIndependent.surfacesAlike : SurfacesAlike g o classify files where
  greatest := by
    intro file hfile uid entry hunchanged h file' hfile' cs hcs node hnode huid
    have hmem := horder.mem_affectedList hfile hunchanged h
    have hgreatest := (horder none files (.refl _)).2 (affectedSymbol g entry.1)
      (by rwa [analyzeBlastRadius_affected])
    refine hgreatest.2 ⟨cs, mem_changedSymbols.mpr ⟨file', hfile', hcs⟩, node, hnode, ?_, rfl⟩
    exact huid.trans (surfaced_eq_some h).1.symm
  alike := by
    intro file hfile file' hfile' uid entry entry' hunchanged h h'
    have huid := (surfaced_eq_some h).1.trans (surfaced_eq_some h').1.symm
    have heq : affectedSymbol g entry.1 = affectedSymbol g entry'.1 :=
      affectedList_key (horder.mem_affectedList hfile hunchanged h)
        (horder.mem_affectedList hfile' hunchanged h') huid
    exact ⟨congrArg AffectedSymbol.depth heq, congrArg AffectedSymbol.edgeType heq,
      congrArg AffectedSymbol.confidence heq⟩
  change := by
    intro file hfile file' hfile' uid entry entry' hunchanged h h' hcross
    have hperm := (List.perm_cons_erase hfile).symm
    have hperm' := (List.perm_cons_erase hfile').symm
    have hmem := mem_buffered_first hfile hunchanged h
    have hmem' := mem_buffered_first hfile' hunchanged h'
    -- the item of the symbol with `file` in front is one with `file'` in front
    obtain ⟨item, hitem⟩ := exists_orgItem hcross
    have hitems := ((horder none _ hperm).1.items item.severity item).trans
      ((horder none _ hperm').1.items item.severity item).symm
    rw [mem_orgItems, mem_orgItems, changedRepos_perm hperm, changedRepos_perm hperm'] at hitems
    obtain ⟨-, entry'', hmem'', hitem''⟩ := hitems.mp ⟨rfl, entry, hmem, hitem⟩
    have huid := orgItem_key hmem hmem'' hitem hitem''
    obtain rfl : entry'' = entry' := buffered_key hmem'' hmem'
      (huid.symm.trans ((surfaced_eq_some h).1.trans (surfaced_eq_some h').1.symm))
    obtain ⟨-, hname, hkind, hrepo⟩ := orgItem_eq_some hitem
    obtain ⟨-, hname', hkind', hrepo'⟩ := orgItem_eq_some hitem''
    exact ⟨hname.symm.trans hname', hkind.symm.trans hkind', hrepo.symm.trans hrepo'⟩

end Necessary

/-- **Blast radius and the order of the changed files.** The report is the same in every order of
the changed files, with every symbol at the largest score that reaches it, exactly when changed
files that surface the same symbol do so alike and with the largest score. -/
theorem orderIndependent_iff (g : GraphStore) (o : BlastRadiusOptions)
    (classify : String → ChangedFileClass) (files : List String) :
    OrderIndependent g o classify files ↔ SurfacesAlike g o classify files :=
  ⟨fun horder => horder.surfacesAlike, fun halike limit _ hperm =>
    ⟨halike.sameReport hperm limit, fun _ => halike.isGreatest hperm⟩⟩

/-! ## Two changed files that reach one consumer -/

/-- A library with the functions `parse` and `render`, each in a file of its own, and an application
that calls both: `parse` by an uncertain edge, `render` by a certain one. -/
def sharedConsumer : GraphStore where
  symbols :=
    [⟨"sym:parse", "parse", .function, "repo:lib", "src/parse.rs", 1, 9, none, false, none,
        .public⟩,
      ⟨"sym:render", "render", .function, "repo:lib", "src/render.rs", 1, 9, none, false, none,
        .public⟩,
      ⟨"sym:show", "show", .function, "repo:app", "src/show.rs", 4, 8, none, false, none, .public⟩]
  edges := [⟨"sym:show", "sym:parse", .calls, 3 / 10⟩, ⟨"sym:show", "sym:render", .calls, 9 / 10⟩]
  repos := [⟨"repo:lib", ""⟩, ⟨"repo:app", ""⟩]
  uid_key := by decide +kernel
  uid_of_fields := by decide +kernel
  not_owner_label := by
    intro s hs filePath hname
    have hlen := congrArg (·.toList.reverse) hname
    simp only [moduleOwnerLabel, moduleOwnerName, String.toList_append, List.reverse_append] at hlen
    simp only [List.mem_cons, List.not_mem_nil, or_false] at hs
    rcases hs with rfl | rfl | rfl <;> simp at hlen

def defaultOptions : BlastRadiusOptions where
  targetRepo := none
  maxDepth := 3
  includeDataEdges := false
  limit := none

def showItem (changeName : String) (severity : OrgSeverity) : OrgImpactItem where
  changeName := changeName
  changeKind := "Function"
  changeRepoUid := "repo:lib"
  affectedName := "show"
  affectedRepoUid := "repo:app"
  affectedRepo := "repo:app"
  affectedFile := "src/show.rs"
  affectedLine := 4
  severity := severity
  reason := "cross-repo dependency (via CALLS) — verify the downstream consumer still works " ++
    "against the changed symbol"

def showNode (confidence : ℚ) : ImpactNode :=
  ⟨"sym:show", "show", "src/show.rs", 4, .calls, confidence, 1, confidence⟩

lemma impactWalk_parse :
    impactWalk (impactArgs sharedConsumer defaultOptions "sym:parse") =
      .ok ⟨[showNode (3 / 10)], false, false, impactEdgeTypes⟩ := by
  have hrun : runImpactWalk (impactArgs sharedConsumer defaultOptions "sym:parse") 3 =
      some (.ok ⟨[showNode (3 / 10)], false, false, impactEdgeTypes⟩) := by decide +kernel
  exact impactWalk_eq_of_run hrun

lemma impactWalk_render :
    impactWalk (impactArgs sharedConsumer defaultOptions "sym:render") =
      .ok ⟨[showNode (9 / 10)], false, false, impactEdgeTypes⟩ := by
  have hrun : runImpactWalk (impactArgs sharedConsumer defaultOptions "sym:render") 3 =
      some (.ok ⟨[showNode (9 / 10)], false, false, impactEdgeTypes⟩) := by decide +kernel
  exact impactWalk_eq_of_run hrun

/-- The first changed file decides: the consumer is a warning when `parse.rs` is listed first, and a
breaking impact when `render.rs` is. -/
theorem blastRadius_severity_by_order :
    (analyzeBlastRadius sharedConsumer defaultOptions (fun _ => .source)
        ["src/parse.rs", "src/render.rs"]).orgWide =
        some ⟨[], [showItem "parse" .warning], [], ["repo:app"], "local"⟩ ∧
      (analyzeBlastRadius sharedConsumer defaultOptions (fun _ => .source)
        ["src/render.rs", "src/parse.rs"]).orgWide =
        some ⟨[showItem "render" .breaking], [], [], ["repo:app"], "local"⟩ ∧
      ¬OrderIndependent sharedConsumer defaultOptions (fun _ => .source)
        ["src/parse.rs", "src/render.rs"] := by
  have hparse : (analyzeBlastRadius sharedConsumer defaultOptions (fun _ => .source)
      ["src/parse.rs", "src/render.rs"]).orgWide =
      some ⟨[], [showItem "parse" .warning], [], ["repo:app"], "local"⟩ := by
    have hchanged : changedState sharedConsumer defaultOptions (fun _ => .source)
        ["src/parse.rs", "src/render.rs"] =
        ⟨{"sym:render", "sym:parse"}, [⟨"sym:parse", "parse", "src/parse.rs", "Function", "repo:lib"⟩,
          ⟨"sym:render", "render", "src/render.rs", "Function", "repo:lib"⟩], {"repo:lib"}⟩ := by
      decide +kernel
    simp only [analyzeBlastRadius, hchanged, traverseChanged, impactWalk_parse, impactWalk_render]
    decide +kernel
  have hrender : (analyzeBlastRadius sharedConsumer defaultOptions (fun _ => .source)
      ["src/render.rs", "src/parse.rs"]).orgWide =
      some ⟨[showItem "render" .breaking], [], [], ["repo:app"], "local"⟩ := by
    have hchanged : changedState sharedConsumer defaultOptions (fun _ => .source)
        ["src/render.rs", "src/parse.rs"] =
        ⟨{"sym:parse", "sym:render"}, [⟨"sym:render", "render", "src/render.rs", "Function",
          "repo:lib"⟩, ⟨"sym:parse", "parse", "src/parse.rs", "Function", "repo:lib"⟩],
          {"repo:lib"}⟩ := by
      decide +kernel
    simp only [analyzeBlastRadius, hchanged, traverseChanged, impactWalk_parse, impactWalk_render]
    decide +kernel
  refine ⟨hparse, hrender, fun horder => ?_⟩
  have hsame := (horder none ["src/render.rs", "src/parse.rs"] (.swap _ _ _)).1.items .breaking
    (showItem "render" .breaking)
  have hrender' : showItem "render" .breaking ∈ (analyzeBlastRadius sharedConsumer defaultOptions
      (fun _ => .source) ["src/render.rs", "src/parse.rs"]).orgItems .breaking := by
    rw [BlastRadiusResult.orgItems, hrender]
    exact List.mem_singleton_self _
  have hparse' := hsame.mp hrender'
  rw [BlastRadiusResult.orgItems, show (analyzeBlastRadius sharedConsumer
    { defaultOptions with limit := none } (fun _ => .source)
    ["src/parse.rs", "src/render.rs"]).orgWide = _ from hparse] at hparse'
  exact absurd hparse' (List.not_mem_nil)

end BlastRadius
end NestWeaver
