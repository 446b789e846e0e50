import NestWeaver.Engine.DeadCode

/-!
# Dead code and unrelated repositories

Two sets of symbols of different repos with no edge between them (`RepoSplit`), in one store.  The
walk and the class members go along edges and stay on their side.  The local bindings, the members
of impl blocks and the configuration twins are found by file path, which says nothing of the repo:
each of these passes keeps the sides apart exactly when no pair of paths coincides in the wrong way
(`NoCollision`), and the analysis keeps the repositories apart exactly then (`keptApart_iff`).
-/

set_option linter.all false

namespace NestWeaver
namespace DeadCode

open WidestPath

/-- Leaving elements out and sorting by a key that tells the elements apart commute. -/
lemma filter_insertionSort_key {α β : Type*} [LinearOrder β] {key : α → β} {p : α → Bool}
    {xs : List α} (hkey : ∀ a ∈ xs, ∀ b ∈ xs, key a = key b → a = b) :
    (xs.insertionSort fun a b => key a ≤ key b).filter p =
      (xs.filter p).insertionSort fun a b => key a ≤ key b := by
  have : Std.Total fun a b : α => key a ≤ key b := ⟨fun a b => le_total _ _⟩
  have : IsTrans α fun a b => key a ≤ key b := ⟨fun a b c => le_trans⟩
  refine List.Perm.eq_of_pairwise ?_ ((List.pairwise_insertionSort _ xs).filter p)
    (List.pairwise_insertionSort _ _) ?_
  · intro a b ha hb hab hba
    have ha' := (List.mem_insertionSort _).mp (List.mem_filter.mp ha).1
    have hb' := (List.mem_filter.mp ((List.mem_insertionSort _).mp hb)).1
    exact hkey a ha' b hb' (le_antisymm hab hba)
  · exact ((List.perm_insertionSort _ xs).filter p).trans (List.perm_insertionSort _ _).symm

/-! ## Two sides -/

/-- A set of uids and its complement, with each repo on one side and no edge between the sides. -/
structure RepoSplit (g : Graph) where
  side : String → Bool
  repo_side : ∀ s ∈ g.symbols, ∀ t ∈ g.symbols, s.repoUid = t.repoUid → side s.uid = side t.uid
  edge_side : ∀ e ∈ g.edges, side e.src = side e.dst

/-- The other side. -/
def RepoSplit.swap {g : Graph} (split : RepoSplit g) : RepoSplit g where
  side uid := !split.side uid
  repo_side s hs t ht h := congrArg _ (split.repo_side s hs t ht h)
  edge_side e he := congrArg _ (split.edge_side e he)

/-- The store with the symbols and edges of one side alone. -/
def Graph.part (g : Graph) (side : String → Bool) : Graph where
  symbols := g.symbols.filter fun s => side s.uid
  edges := g.edges.filter fun e => side e.src
  skippedCorrupt := g.skippedCorrupt
  uid_key s hs t ht := g.uid_key s (List.mem_filter.mp hs).1 t (List.mem_filter.mp ht).1

variable {g : Graph} {split : RepoSplit g} {minEdgeConfidence : ℚ}
  {manifests : AList fun _ : String => ManifestInfo} {repos : Option (Finset String)}
  {languageOf : String → Option String} {s t ext : Symbol} {uid cls : String}

lemma mem_part_symbols {side : String → Bool} :
    s ∈ (g.part side).symbols ↔ s ∈ g.symbols ∧ side s.uid = true := List.mem_filter

variable (split minEdgeConfidence manifests repos languageOf) in
/-- What the analysis of the whole store says of one side's symbols, it says of that side alone. -/
structure Unaffected : Prop where
  localBinding : ∀ s ∈ (g.part split.side).symbols,
    s.uid ∈ functionLocalBindings g.symbols ↔
      s.uid ∈ functionLocalBindings (g.part split.side).symbols
  excluded : ∀ s ∈ (g.part split.side).symbols,
    countedExcluded g.symbols s = countedExcluded (g.part split.side).symbols s
  member : ∀ s ∈ (g.part split.side).symbols, ∀ ext,
    s.uid ∈ extensionMembers g.allSymbols ext ↔
      s.uid ∈ extensionMembers (g.part split.side).allSymbols ext
  twin : ∀ s ∈ (g.part split.side).allSymbols,
    isTwin g minEdgeConfidence manifests s = isTwin (g.part split.side) minEdgeConfidence manifests s
  rows : (detectDeadCodeInner g minEdgeConfidence manifests repos languageOf).unreachableSymbols.filter
      (fun row => split.side row.uid) =
    (detectDeadCodeInner (g.part split.side) minEdgeConfidence manifests repos
      languageOf).unreachableSymbols

variable (split minEdgeConfidence manifests repos languageOf) in
/-- The analysis keeps the two sides apart. -/
def KeptApart : Prop :=
  Unaffected split minEdgeConfidence manifests repos languageOf ∧
    Unaffected split.swap minEdgeConfidence manifests repos languageOf

variable (g minEdgeConfidence manifests) in
/-- A path from an entry point, all of whose edges have a confidence of at least one half. -/
def StronglyReached (uid : String) : Prop :=
  Wide (network g.edges minEdgeConfidence) (entryPointUids g manifests) 1 weakEdgeThreshold uid

variable (split minEdgeConfidence manifests) in
/-- No symbol of the other side takes part in what is found by file path for a symbol of this one. -/
structure NoCollision : Prop where
  /-- A binding inside a body of the other side is inside one of its own. -/
  localBinding : ∀ s ∈ g.symbols, split.side s.uid = true → IsBinding s → s.startLine ≤ s.endLine →
    ∀ body ∈ g.symbols, split.side body.uid = false → IsBody body → InBody body s →
    ∃ own ∈ g.symbols, split.side own.uid = true ∧ IsBody own ∧ InBody own s
  /-- The innermost impl block around a member is one of its own side. -/
  member : ∀ s ∈ g.allSymbols, split.side s.uid = true → IsMemberKind s → s.startLine ≤ s.endLine →
    ∀ ext, innermostExtension g.allSymbols s = some ext → split.side ext.uid = true
  /-- A symbol with a reached twin on the other side has one on its own. -/
  twin : ∀ s ∈ g.allSymbols, split.side s.uid = true → s.kind ≠ .extension →
    ∀ t ∈ g.allSymbols, split.side t.uid = false → t.filePath = s.filePath → t.name = s.name →
    t.kind = s.kind → StronglyReached g minEdgeConfidence manifests t.uid →
    ∃ own ∈ g.allSymbols, split.side own.uid = true ∧ own.filePath = s.filePath ∧
      own.name = s.name ∧ own.kind = s.kind ∧ StronglyReached g minEdgeConfidence manifests own.uid

/-! ## Local bindings -/

lemma mem_functionLocalBindings {symbols : List Symbol}
    (hkey : ∀ s ∈ symbols, ∀ t ∈ symbols, s.uid = t.uid → s = t) (hs : s ∈ symbols) :
    s.uid ∈ functionLocalBindings symbols ↔ IsBinding s ∧ s.startLine ≤ s.endLine ∧
      ∃ body ∈ symbols, IsBody body ∧ InBody body s := by
  simp only [functionLocalBindings, List.mem_map, List.mem_filter, decide_eq_true_eq]
  constructor
  · rintro ⟨t, ⟨ht, hlocal⟩, huid⟩
    rwa [← hkey t ht s hs huid]
  · exact fun hlocal => ⟨s, ⟨hs, hlocal⟩, rfl⟩

/-- The pass over the bindings keeps a side apart exactly when its bindings do not collide. -/
lemma localBinding_iff :
    (∀ s ∈ (g.part split.side).symbols, s.uid ∈ functionLocalBindings g.symbols ↔
        s.uid ∈ functionLocalBindings (g.part split.side).symbols) ↔
      ∀ s ∈ g.symbols, split.side s.uid = true → IsBinding s → s.startLine ≤ s.endLine →
        ∀ body ∈ g.symbols, split.side body.uid = false → IsBody body → InBody body s →
        ∃ own ∈ g.symbols, split.side own.uid = true ∧ IsBody own ∧ InBody own s := by
  constructor
  · intro h s hs hside hbinding hspan body hbody _ hkind hin
    have hpart := mem_part_symbols.mpr ⟨hs, hside⟩
    have hlocal := (h s hpart).mp
      ((mem_functionLocalBindings g.uid_key hs).mpr ⟨hbinding, hspan, body, hbody, hkind, hin⟩)
    obtain ⟨-, -, own, hown, hkind', hin'⟩ :=
      (mem_functionLocalBindings (g.part split.side).uid_key hpart).mp hlocal
    obtain ⟨hown, hside'⟩ := mem_part_symbols.mp hown
    exact ⟨own, hown, hside', hkind', hin'⟩
  · intro h s hpart
    obtain ⟨hs, hside⟩ := mem_part_symbols.mp hpart
    rw [mem_functionLocalBindings g.uid_key hs,
      mem_functionLocalBindings (g.part split.side).uid_key hpart]
    refine and_congr_right fun hbinding => and_congr_right fun hspan => ⟨?_, ?_⟩
    · rintro ⟨body, hbody, hkind, hin⟩
      cases hbside : split.side body.uid with
      | true => exact ⟨body, mem_part_symbols.mpr ⟨hbody, hbside⟩, hkind, hin⟩
      | false =>
        obtain ⟨own, hown, hoside, hkind', hin'⟩ :=
          h s hs hside hbinding hspan body hbody hbside hkind hin
        exact ⟨own, mem_part_symbols.mpr ⟨hown, hoside⟩, hkind', hin'⟩
    · rintro ⟨own, hown, hkind, hin⟩
      exact ⟨own, (mem_part_symbols.mp hown).1, hkind, hin⟩

lemma allSymbols_part
    (h : ∀ s ∈ (g.part split.side).symbols, s.uid ∈ functionLocalBindings g.symbols ↔
      s.uid ∈ functionLocalBindings (g.part split.side).symbols) :
    (g.part split.side).allSymbols = g.allSymbols.filter fun s => split.side s.uid := by
  have hfilter : (g.part split.side).allSymbols =
      (g.part split.side).symbols.filter fun s =>
        !isExcludedFromDeadCode s && s.uid ∉ functionLocalBindings g.symbols :=
    List.filter_congr fun s hs => by rw [decide_eq_decide.mpr (not_congr (h s hs).symm)]
  rw [hfilter, Graph.part, Graph.allSymbols, List.filter_comm]

/-! ## Members of impl blocks -/

lemma mem_extensionMembers {symbols : List Symbol} {uid : String}
    (hkey : ∀ t ∈ symbols, t.uid = s.uid → t = s) :
    s.uid ∈ extensionMembers symbols uid ↔ s ∈ symbols ∧ IsMemberKind s ∧ s.startLine ≤ s.endLine ∧
      ∃ ext, innermostExtension symbols s = some ext ∧ ext.uid = uid := by
  simp only [extensionMembers, List.mem_map, List.mem_filter, decide_eq_true_eq, Option.any_eq_true]
  constructor
  · rintro ⟨t, ⟨ht, hmember⟩, huid⟩
    obtain rfl := hkey t ht huid
    exact ⟨ht, hmember⟩
  · exact fun ⟨hs, hmember⟩ => ⟨s, ⟨hs, hmember⟩, rfl⟩

lemma mem_symbols_of_allSymbols (h : s ∈ g.allSymbols) : s ∈ g.symbols := (List.mem_filter.mp h).1

lemma allSymbols_key (hs : s ∈ g.symbols) (ht : t ∈ g.allSymbols) (huid : t.uid = s.uid) : t = s :=
  g.uid_key t (mem_symbols_of_allSymbols ht) s hs huid

section Parts

variable (hall : (g.part split.side).allSymbols = g.allSymbols.filter fun s => split.side s.uid)

include hall

/-- A member whose innermost block is on its own side has the same one there. -/
lemma innermostExtension_part
    (h : ∀ ext, innermostExtension g.allSymbols s = some ext → split.side ext.uid = true) :
    innermostExtension (g.part split.side).allSymbols s = innermostExtension g.allSymbols s := by
  rw [innermostExtension, hall, List.filter_comm]
  cases hinner : innermostExtension g.allSymbols s with
  | none => rw [maxByKey_eq_none hinner]; rfl
  | some ext => exact maxByKey_filter hinner (h ext hinner)

/-- The pass over the impl blocks keeps a side apart exactly when its members do not collide. -/
lemma member_iff :
    (∀ s ∈ (g.part split.side).symbols, ∀ ext, s.uid ∈ extensionMembers g.allSymbols ext ↔
        s.uid ∈ extensionMembers (g.part split.side).allSymbols ext) ↔
      ∀ s ∈ g.allSymbols, split.side s.uid = true → IsMemberKind s → s.startLine ≤ s.endLine →
        ∀ ext, innermostExtension g.allSymbols s = some ext → split.side ext.uid = true := by
  have hpart : ∀ s, s ∈ (g.part split.side).allSymbols ↔ s ∈ g.allSymbols ∧ split.side s.uid = true :=
    fun s => by rw [hall, List.mem_filter]
  constructor
  · intro h s hs hside hkind hspan ext hinner
    have hsym := mem_symbols_of_allSymbols hs
    have hmem := (h s (mem_part_symbols.mpr ⟨hsym, hside⟩) ext.uid).mp
      ((mem_extensionMembers fun t => allSymbols_key hsym).mpr ⟨hs, hkind, hspan, ext, hinner, rfl⟩)
    rw [mem_extensionMembers fun t ht => allSymbols_key hsym ((hpart t).mp ht).1] at hmem
    obtain ⟨-, -, -, ext', hinner', huid⟩ := hmem
    -- the block found on the own side has the same uid
    have hext' := (List.mem_filter.mp (mem_of_maxByKey hinner')).1
    exact huid ▸ ((hpart ext').mp hext').2
  · intro h s hs ext
    obtain ⟨hsym, hside⟩ := mem_part_symbols.mp hs
    rw [mem_extensionMembers fun t => allSymbols_key hsym,
      mem_extensionMembers fun t ht => allSymbols_key hsym ((hpart t).mp ht).1, hpart]
    constructor
    · rintro ⟨hmem, hkind, hspan, hinner⟩
      rw [innermostExtension_part hall (h s hmem hside hkind hspan)]
      exact ⟨⟨hmem, hside⟩, hkind, hspan, hinner⟩
    · rintro ⟨⟨hmem, -⟩, hkind, hspan, hinner⟩
      rw [innermostExtension_part hall (h s hmem hside hkind hspan)] at hinner
      exact ⟨hmem, hkind, hspan, hinner⟩

/-- When no member on either side collides, the blocks of a side have the same members there. -/
lemma extensionMembers_part
    (h : ∀ s ∈ g.allSymbols, IsMemberKind s → s.startLine ≤ s.endLine →
      ∀ ext, innermostExtension g.allSymbols s = some ext → split.side ext.uid = split.side s.uid)
    (huid : split.side uid = true) :
    extensionMembers (g.part split.side).allSymbols uid = extensionMembers g.allSymbols uid := by
  rw [extensionMembers, extensionMembers]
  congr 1
  conv_lhs => rw [hall, List.filter_filter]
  refine List.filter_congr fun s hs => ?_
  by_cases hside : split.side s.uid = true
  · rw [hside, Bool.and_true]
    refine decide_eq_decide.mpr (and_congr_right fun hkind => and_congr_right fun hspan => ?_)
    have hsame := innermostExtension_part hall fun ext hinner =>
      (h s hs hkind hspan ext hinner).trans hside
    rw [hall] at hsame
    rw [hsame]
  · rw [Bool.eq_false_iff.mpr hside, Bool.and_false, eq_comm, decide_eq_false_iff_not]
    rintro ⟨hkind, hspan, hinner⟩
    obtain ⟨ext, hinner, hext⟩ := Option.any_eq_true _ _ |>.mp hinner
    have hsame := h s hs hkind hspan ext hinner
    rw [of_decide_eq_true hext, huid] at hsame
    exact hside hsame.symm

end Parts

lemma side_of_mem_extensionMembers
    (h : ∀ s ∈ g.allSymbols, IsMemberKind s → s.startLine ≤ s.endLine →
      ∀ ext, innermostExtension g.allSymbols s = some ext → split.side ext.uid = split.side s.uid)
    {member : String} (hmem : member ∈ extensionMembers g.allSymbols uid) :
    split.side member = split.side uid := by
  obtain ⟨s, hs, rfl⟩ := List.mem_map.mp hmem
  obtain ⟨hs, hmember⟩ := List.mem_filter.mp hs
  obtain ⟨hkind, hspan, hinner⟩ := of_decide_eq_true hmember
  obtain ⟨ext, hinner, hext⟩ := Option.any_eq_true _ _ |>.mp hinner
  rw [← of_decide_eq_true hext, h s hs hkind hspan ext hinner]

/-! ## The walk -/

lemma mem_adjacency_part {target : String × ℚ} (huid : split.side uid = true) :
    target ∈ adjacency (g.part split.side).edges uid ↔ target ∈ adjacency g.edges uid := by
  rw [mem_adjacency, mem_adjacency]
  constructor
  · rintro ⟨e, he, hedge⟩
    exact ⟨e, (List.mem_filter.mp he).1, hedge⟩
  · rintro ⟨e, he, hconf, hends⟩
    refine ⟨e, List.mem_filter.mpr ⟨he, ?_⟩, hconf, hends⟩
    obtain ⟨hsrc, -⟩ | ⟨-, hdst, -⟩ := hends
    · rwa [hsrc]
    · rwa [split.edge_side e he, hdst]

/-- An edge the walk follows has both ends on one side. -/
lemma side_of_mem_adjacency {target : String × ℚ} (h : target ∈ adjacency g.edges uid) :
    split.side target.1 = split.side uid := by
  obtain ⟨e, he, -, ⟨hsrc, hdst⟩ | ⟨-, hdst, hsrc⟩⟩ := mem_adjacency.mp h
  · rw [hdst, ← split.edge_side e he, hsrc]
  · rw [hsrc, split.edge_side e he, hdst]

lemma mem_entryPointUids :
    uid ∈ entryPointUids g manifests ↔
      (∃ s ∈ g.allSymbols, isEntry manifests s = true ∧ s.uid = uid) ∨
        ∃ s ∈ g.symbols, (s.isModuleOwner && s.isEntryPoint) = true ∧ s.uid = uid := by
  simp only [entryPointUids, Graph.moduleOwners, List.mem_append, List.mem_map, List.mem_filter,
    and_assoc]

lemma mem_entryPointUids_part
    (hall : (g.part split.side).allSymbols = g.allSymbols.filter fun s => split.side s.uid)
    (huid : split.side uid = true) :
    uid ∈ entryPointUids g manifests ↔ uid ∈ entryPointUids (g.part split.side) manifests := by
  rw [mem_entryPointUids, mem_entryPointUids, hall]
  simp only [mem_part_symbols, List.mem_filter]
  constructor
  · rintro (⟨s, hs, hentry, rfl⟩ | ⟨s, hs, howner, rfl⟩)
    · exact .inl ⟨s, ⟨hs, huid⟩, hentry, rfl⟩
    · exact .inr ⟨s, ⟨hs, huid⟩, howner, rfl⟩
  · rintro (⟨s, ⟨hs, -⟩, hentry, rfl⟩ | ⟨s, ⟨hs, -⟩, howner, rfl⟩)
    · exact .inl ⟨s, hs, hentry, rfl⟩
    · exact .inr ⟨s, hs, howner, rfl⟩

section Walk

variable (hall : (g.part split.side).allSymbols = g.allSymbols.filter fun s => split.side s.uid)

include hall

/-- The walk reaches a side as it does alone. -/
lemma lookup_walkConf_part (huid : split.side uid = true) :
    (walkConf g minEdgeConfidence manifests).lookup uid =
      (walkConf (g.part split.side) minEdgeConfidence manifests).lookup uid := by
  have hadjacent : ∀ u ∈ {u | split.side u = true}, ∀ target,
      target ∈ (network g.edges minEdgeConfidence).adjacent u ↔
        target ∈ (network (g.part split.side).edges minEdgeConfidence).adjacent u := by
    intro u hu target
    simp only [network, List.mem_filter, mem_adjacency_part (show split.side u = true from hu)]
  refine lookup_widest_congr (fun v hv => mem_entryPointUids_part hall hv) hadjacent ?_ ?_ huid
  · intro u target htarget hside
    exact (side_of_mem_adjacency (List.mem_filter.mp htarget).1).symm.trans hside
  · intro u target htarget hside
    obtain ⟨e, he, hends⟩ := mem_adjacency.mp (List.mem_filter.mp htarget).1
    have hmem := mem_adjacency.mpr ⟨e, (List.mem_filter.mp he).1, hends⟩
    exact (side_of_mem_adjacency hmem).symm.trans hside

end Walk

lemma lookup_propagateStep_ne {members : String → List String} {best : AList fun _ : String => ℚ}
    (h : uid ≠ s.uid) : (propagateStep members best s).lookup uid = best.lookup uid := by
  unfold propagateStep
  split_ifs
  · dsimp only
    split_ifs
    · exact AList.lookup_insert_ne h
    · rfl
  · rfl

/-- The reachability of impl blocks follows from that of their own side's symbols. -/
lemma lookup_propagate_part {members members' : String → List String} {side : String → Bool}
    (hmembers : ∀ ext, side ext = true → members' ext = members ext)
    (hside : ∀ ext, side ext = true → ∀ m ∈ members ext, side m = true) (syms : List Symbol)
    {best best' : AList fun _ : String => ℚ}
    (hbest : ∀ v, side v = true → best.lookup v = best'.lookup v) (huid : side uid = true) :
    (syms.foldl (propagateStep members) best).lookup uid =
      ((syms.filter fun s => side s.uid).foldl (propagateStep members') best').lookup uid := by
  induction syms generalizing best best' with
  | nil => exact hbest uid huid
  | cons s syms ih =>
    by_cases hs : side s.uid = true
    · rw [List.filter_cons_of_pos (p := fun s : Symbol => side s.uid) hs]
      refine ih fun v hv => ?_
      -- the members and their confidences are the same
      have hconf : ((members s.uid).filterMap best.lookup) =
          (members' s.uid).filterMap best'.lookup := by
        rw [hmembers s.uid hs]
        exact List.filterMap_congr fun m hm => hbest m (hside s.uid hs m hm)
      have hwidth : widthIn best s.uid = widthIn best' s.uid := by
        rw [widthIn, widthIn, hbest s.uid hs]
      by_cases hvs : v = s.uid
      · subst hvs
        unfold propagateStep
        rw [hconf, hwidth]
        split_ifs
        · dsimp only
          split_ifs
          · rw [AList.lookup_insert, AList.lookup_insert]
          · exact hbest _ hs
        · exact hbest _ hs
      · rw [lookup_propagateStep_ne hvs, lookup_propagateStep_ne hvs, hbest v hv]
    · rw [List.filter_cons_of_neg (p := fun s : Symbol => side s.uid) hs]
      refine ih fun v hv => ?_
      rw [lookup_propagateStep_ne fun hvs => hs (hvs ▸ hv), hbest v hv]

/-- Only the entries of impl blocks change when their members are looked at. -/
lemma lookup_propagate_other {members : String → List String} (syms : List Symbol)
    {best : AList fun _ : String => ℚ} (h : ∀ s ∈ syms, s.kind = .extension → s.uid ≠ uid) :
    (syms.foldl (propagateStep members) best).lookup uid = best.lookup uid := by
  induction syms generalizing best with
  | nil => rfl
  | cons s syms ih =>
    rw [List.foldl_cons, ih fun t ht => h t (List.mem_cons_of_mem _ ht)]
    by_cases hkind : s.kind = .extension
    · exact lookup_propagateStep_ne (h s List.mem_cons_self hkind).symm
    · rw [propagateStep, if_neg hkind]

/-- A symbol that is no impl block is strongly reached when a strong path leads to it. -/
lemma strongReachable_iff (hs : s ∈ g.allSymbols) (hkind : s.kind ≠ .extension) :
    strongReachable g minEdgeConfidence manifests s.uid = true ↔
      StronglyReached g minEdgeConfidence manifests s.uid := by
  have hlookup : (bestPathConf g minEdgeConfidence manifests).lookup s.uid =
      (walkConf g minEdgeConfidence manifests).lookup s.uid := by
    refine lookup_propagate_other _ fun t ht htkind huid => hkind ?_
    rwa [← allSymbols_key (mem_symbols_of_allSymbols hs) ht huid]
  have hpos : (0 : ℚ) < weakEdgeThreshold := by decide +kernel
  rw [StronglyReached, ← le_width_widest_iff hpos, strongReachable, hlookup]
  change _ ↔ weakEdgeThreshold ≤ widthIn (walkConf g minEdgeConfidence manifests) s.uid
  rw [widthIn]
  cases (walkConf g minEdgeConfidence manifests).lookup s.uid with
  | none => simpa using hpos
  | some conf => simp

/-! ## Suppressed methods -/

lemma mem_suppressedMemberUids :
    uid ∈ suppressedMemberUids g minEdgeConfidence manifests ↔
      (∃ cls ∈ g.allSymbols, strongReachable g minEdgeConfidence manifests cls.uid = false ∧
        (cls.kind = .class ∨ cls.kind = .extension) ∧
        (uid ∈ classMembers g.edges cls.uid ∨ uid ∈ extensionMembers g.allSymbols cls.uid)) ∧
      kindByUid g uid = some .method ∧
      strongReachable g minEdgeConfidence manifests uid = false := by
  simp only [suppressedMemberUids, unreachableClassUids, List.mem_filter, List.mem_flatMap,
    List.mem_map, List.mem_append, Bool.and_eq_true, Bool.not_eq_true', decide_eq_true_eq]
  refine and_congr_left fun _ => ⟨?_, ?_⟩
  · rintro ⟨_, ⟨cls, ⟨hcls, hweak, hkind⟩, rfl⟩, hmem⟩
    exact ⟨cls, hcls, hweak, hkind, hmem⟩
  · rintro ⟨cls, hcls, hweak, hkind, hmem⟩
    exact ⟨_, ⟨cls, ⟨hcls, hweak, hkind⟩, rfl⟩, hmem⟩

/-! ## Configuration twins -/

lemma isTwin_iff :
    isTwin g minEdgeConfidence manifests s = true ↔
      s.kind ≠ .extension ∧ ∃ t ∈ g.allSymbols, t.filePath = s.filePath ∧ t.name = s.name ∧
        t.kind = s.kind ∧ StronglyReached g minEdgeConfidence manifests t.uid := by
  rw [isTwin, decide_eq_true_eq, reachableTwins]
  simp only [List.mem_map, List.mem_filter, Bool.and_eq_true, decide_eq_true_eq, Prod.mk.injEq]
  refine and_congr_right fun hkind => ⟨?_, ?_⟩
  · rintro ⟨t, ⟨ht, hkind', hstrong⟩, hpath, hname, hsame⟩
    exact ⟨t, ht, hpath, hname, hsame, (strongReachable_iff ht hkind').mp hstrong⟩
  · rintro ⟨t, ht, hpath, hname, hsame, hstrong⟩
    have hkind' : t.kind ≠ .extension := hsame ▸ hkind
    exact ⟨t, ⟨ht, hkind', (strongReachable_iff ht hkind').mpr hstrong⟩, hpath, hname, hsame⟩

section Separated

variable (hall : (g.part split.side).allSymbols = g.allSymbols.filter fun s => split.side s.uid)

lemma mem_allSymbols_part (hall : (g.part split.side).allSymbols =
    g.allSymbols.filter fun s => split.side s.uid) :
    s ∈ (g.part split.side).allSymbols ↔ s ∈ g.allSymbols ∧ split.side s.uid = true := by
  rw [hall, List.mem_filter]

include hall

lemma stronglyReached_part (huid : split.side uid = true) :
    StronglyReached g minEdgeConfidence manifests uid ↔
      StronglyReached (g.part split.side) minEdgeConfidence manifests uid := by
  have hpos : (0 : ℚ) < weakEdgeThreshold := by decide +kernel
  have hlookup : (walkConf g minEdgeConfidence manifests).lookup uid =
      (walkConf (g.part split.side) minEdgeConfidence manifests).lookup uid :=
    lookup_walkConf_part hall huid
  rw [StronglyReached, StronglyReached, ← le_width_widest_iff hpos, ← le_width_widest_iff hpos,
    widthIn, widthIn]
  exact hlookup ▸ Iff.rfl

/-- The pass over the twins keeps a side apart exactly when its symbols do not collide. -/
lemma twin_iff :
    (∀ s ∈ (g.part split.side).allSymbols, isTwin g minEdgeConfidence manifests s =
        isTwin (g.part split.side) minEdgeConfidence manifests s) ↔
      ∀ s ∈ g.allSymbols, split.side s.uid = true → s.kind ≠ .extension →
        ∀ t ∈ g.allSymbols, split.side t.uid = false → t.filePath = s.filePath →
        t.name = s.name → t.kind = s.kind → StronglyReached g minEdgeConfidence manifests t.uid →
        ∃ own ∈ g.allSymbols, split.side own.uid = true ∧ own.filePath = s.filePath ∧
          own.name = s.name ∧ own.kind = s.kind ∧
          StronglyReached g minEdgeConfidence manifests own.uid := by
  constructor
  · intro h s hs hside hkind t ht _ hpath hname hsame hstrong
    have htwin := h s ((mem_allSymbols_part hall).mpr ⟨hs, hside⟩)
    rw [isTwin_iff.mpr ⟨hkind, t, ht, hpath, hname, hsame, hstrong⟩, eq_comm, isTwin_iff] at htwin
    obtain ⟨-, own, hown, hpath', hname', hsame', hstrong'⟩ := htwin
    obtain ⟨hown, hoside⟩ := (mem_allSymbols_part hall).mp hown
    exact ⟨own, hown, hoside, hpath', hname', hsame', (stronglyReached_part hall hoside).mpr hstrong'⟩
  · intro h s hs
    obtain ⟨hs, hside⟩ := (mem_allSymbols_part hall).mp hs
    rw [Bool.eq_iff_iff, isTwin_iff, isTwin_iff]
    refine and_congr_right fun hkind => ⟨?_, ?_⟩
    · rintro ⟨t, ht, hpath, hname, hsame, hstrong⟩
      obtain ⟨own, hown, hoside, hpath', hname', hsame', hstrong'⟩ : ∃ own ∈ g.allSymbols,
          split.side own.uid = true ∧ own.filePath = s.filePath ∧ own.name = s.name ∧
          own.kind = s.kind ∧ StronglyReached g minEdgeConfidence manifests own.uid := by
        cases htside : split.side t.uid with
        | true => exact ⟨t, ht, htside, hpath, hname, hsame, hstrong⟩
        | false => exact h s hs hside hkind t ht htside hpath hname hsame hstrong
      exact ⟨own, (mem_allSymbols_part hall).mpr ⟨hown, hoside⟩, hpath', hname', hsame',
        (stronglyReached_part hall hoside).mp hstrong'⟩
    · rintro ⟨own, hown, hpath, hname, hsame, hstrong⟩
      obtain ⟨hown, hoside⟩ := (mem_allSymbols_part hall).mp hown
      exact ⟨own, hown, hpath, hname, hsame, (stronglyReached_part hall hoside).mpr hstrong⟩

/-! ## The rows -/

lemma kindByUid_part (huid : split.side uid = true) :
    kindByUid (g.part split.side) uid = kindByUid g uid := by
  rw [kindByUid, kindByUid, hall, List.find?_filter]
  congr 2
  funext s
  by_cases hs : s.uid = uid <;> simp [hs, huid]

variable (hinner : ∀ s ∈ g.allSymbols, IsMemberKind s → s.startLine ≤ s.endLine →
    ∀ ext, innermostExtension g.allSymbols s = some ext → split.side ext.uid = split.side s.uid)

include hinner

lemma lookup_bestPathConf_part (huid : split.side uid = true) :
    (bestPathConf g minEdgeConfidence manifests).lookup uid =
      (bestPathConf (g.part split.side) minEdgeConfidence manifests).lookup uid := by
  have hwalk : ∀ v, split.side v = true → (walkConf g minEdgeConfidence manifests).lookup v =
      (walkConf (g.part split.side) minEdgeConfidence manifests).lookup v :=
    fun v hv => lookup_walkConf_part hall hv
  have hmembers : ∀ ext, split.side ext = true →
      extensionMembers (g.part split.side).allSymbols ext = extensionMembers g.allSymbols ext :=
    fun ext hext => extensionMembers_part hall hinner hext
  have h := lookup_propagate_part hmembers
    (fun ext hext m hm => (side_of_mem_extensionMembers hinner hm).trans hext) g.allSymbols hwalk huid
  rw [← hall] at h
  exact h

lemma strongReachable_part (huid : split.side uid = true) :
    strongReachable g minEdgeConfidence manifests uid =
      strongReachable (g.part split.side) minEdgeConfidence manifests uid := by
  rw [strongReachable, strongReachable, lookup_bestPathConf_part hall hinner huid]

/-- The methods of reported classes and blocks are those of their own side. -/
lemma mem_suppressedMemberUids_part (huid : split.side uid = true) :
    uid ∈ suppressedMemberUids g minEdgeConfidence manifests ↔
      uid ∈ suppressedMemberUids (g.part split.side) minEdgeConfidence manifests := by
  have hclass : ∀ cls, split.side cls = true →
      (uid ∈ classMembers g.edges cls ↔ uid ∈ classMembers (g.part split.side).edges cls) := by
    intro cls hcls
    simp only [classMembers, Graph.part, List.mem_map, List.mem_filter, decide_eq_true_eq]
    constructor
    · rintro ⟨e, ⟨he, htype, rfl⟩, rfl⟩
      exact ⟨e, ⟨⟨he, huid⟩, htype, rfl⟩, rfl⟩
    · rintro ⟨e, ⟨⟨he, -⟩, htype, rfl⟩, rfl⟩
      exact ⟨e, ⟨he, htype, rfl⟩, rfl⟩
  rw [mem_suppressedMemberUids, mem_suppressedMemberUids, kindByUid_part hall huid,
    strongReachable_part hall hinner huid]
  refine and_congr_left fun _ => ⟨?_, ?_⟩
  · rintro ⟨cls, hcls, hweak, hkind, hmem⟩
    have hcside : split.side cls.uid = true := by
      obtain hmem | hmem := hmem
      · obtain ⟨e, he, rfl⟩ := List.mem_map.mp hmem
        obtain ⟨he, -, hdst⟩ : e ∈ g.edges ∧ e.edgeType = .memberOf ∧ e.dst = cls.uid := by
          simpa using he
        rwa [← hdst, ← split.edge_side e he]
      · exact (side_of_mem_extensionMembers hinner hmem).symm.trans huid
    rw [hclass cls.uid hcside, ← extensionMembers_part hall hinner hcside] at hmem
    rw [strongReachable_part hall hinner hcside] at hweak
    exact ⟨cls, (mem_allSymbols_part hall).mpr ⟨hcls, hcside⟩, hweak, hkind, hmem⟩
  · rintro ⟨cls, hcls, hweak, hkind, hmem⟩
    obtain ⟨hcls, hcside⟩ := (mem_allSymbols_part hall).mp hcls
    rw [← hclass cls.uid hcside, extensionMembers_part hall hinner hcside] at hmem
    rw [← strongReachable_part hall hinner hcside] at hweak
    exact ⟨cls, hcls, hweak, hkind, hmem⟩

lemma rankedRow_part (hside : split.side s.uid = true) :
    rankedRow g minEdgeConfidence manifests s =
      rankedRow (g.part split.side) minEdgeConfidence manifests s := by
  rw [rankedRow, rankedRow, weakReachable, weakReachable, lookup_bestPathConf_part hall hinner hside]

/-- When the twins are the same as well, the rows of a side are those it has alone. -/
lemma ranked_part (htwin : ∀ s ∈ (g.part split.side).allSymbols,
      isTwin g minEdgeConfidence manifests s =
        isTwin (g.part split.side) minEdgeConfidence manifests s) :
    (ranked g minEdgeConfidence manifests repos).filter (fun row => split.side row.2.uid) =
      ranked (g.part split.side) minEdgeConfidence manifests repos := by
  have hreported : ∀ s ∈ (g.part split.side).allSymbols,
      isReported g minEdgeConfidence manifests repos s =
        isReported (g.part split.side) minEdgeConfidence manifests repos s := by
    intro s hs
    have hside := ((mem_allSymbols_part hall).mp hs).2
    rw [isReported, isReported, htwin s hs, strongReachable_part hall hinner hside,
      decide_eq_decide.mpr (not_congr (mem_suppressedMemberUids_part hall hinner hside))]
  have hrows : ((g.allSymbols.filter (isReported g minEdgeConfidence manifests repos)).map
      (rankedRow g minEdgeConfidence manifests)).filter (fun row => split.side row.2.uid) =
      ((g.part split.side).allSymbols.filter
        (isReported (g.part split.side) minEdgeConfidence manifests repos)).map
        (rankedRow (g.part split.side) minEdgeConfidence manifests) := by
    rw [← List.filter_congr hreported, List.filter_map, hall, List.filter_comm]
    refine List.map_congr_left fun s hs => rankedRow_part hall hinner ?_
    exact (List.mem_filter.mp (List.mem_filter.mp hs).1).2
  rw [ranked, ranked, ← hrows]
  refine filter_insertionSort_key fun a ha b hb hkey => ?_
  -- the sort key holds the uid, which determines the row
  obtain ⟨s, hs, rfl⟩ := List.mem_map.mp ha
  obtain ⟨t, ht, rfl⟩ := List.mem_map.mp hb
  have huid : s.uid = t.uid := by
    simp only [rankedKey, EmbeddingLike.apply_eq_iff_eq, Prod.mk.injEq] at hkey
    exact hkey.2.2.2.2
  rw [g.uid_key s (mem_symbols_of_allSymbols (List.mem_filter.mp hs).1) t
    (mem_symbols_of_allSymbols (List.mem_filter.mp ht).1) huid]

end Separated

lemma unreachableSymbols_eq :
    (detectDeadCodeInner g minEdgeConfidence manifests repos languageOf).unreachableSymbols =
      (ranked g minEdgeConfidence manifests repos).map Prod.snd := by
  unfold detectDeadCodeInner
  split_ifs with hnil
  · rw [ranked, hnil]
    rfl
  · rfl

/-! ## The analysis keeps repositories apart -/

lemma NoCollision.inner (h : NoCollision split minEdgeConfidence manifests)
    (h' : NoCollision split.swap minEdgeConfidence manifests) :
    ∀ s ∈ g.allSymbols, IsMemberKind s → s.startLine ≤ s.endLine →
      ∀ ext, innermostExtension g.allSymbols s = some ext →
        split.side ext.uid = split.side s.uid := by
  intro s hs hkind hspan ext hinner
  cases hside : split.side s.uid with
  | true => exact h.member s hs hside hkind hspan ext hinner
  | false =>
    have hswap := h'.member s hs (by simp [RepoSplit.swap, hside]) hkind hspan ext hinner
    simpa [RepoSplit.swap] using hswap

lemma NoCollision.unaffected (h : NoCollision split minEdgeConfidence manifests)
    (h' : NoCollision split.swap minEdgeConfidence manifests) :
    Unaffected split minEdgeConfidence manifests repos languageOf := by
  have hlocal := localBinding_iff.mpr h.localBinding
  have hall := allSymbols_part hlocal
  have htwin := (twin_iff hall).mpr h.twin
  refine ⟨hlocal, fun s hs => ?_, (member_iff hall).mpr h.member, htwin, ?_⟩
  · rw [countedExcluded, countedExcluded, decide_eq_decide.mpr (hlocal s hs)]
  · rw [unreachableSymbols_eq, unreachableSymbols_eq, List.filter_map,
      ← ranked_part hall (h.inner h') htwin]
    rfl

lemma Unaffected.noCollision
    (h : Unaffected split minEdgeConfidence manifests repos languageOf) :
    NoCollision split minEdgeConfidence manifests := by
  have hall := allSymbols_part h.localBinding
  exact ⟨localBinding_iff.mp h.localBinding, (member_iff hall).mp h.member,
    (twin_iff hall).mp h.twin⟩

/-- **Dead code and unrelated repositories.** The analysis of a store keeps two unconnected sets of
repositories apart exactly when no symbol of one takes part in what is found by file path for a
symbol of the other. -/
theorem keptApart_iff (g : Graph) (split : RepoSplit g) (minEdgeConfidence : ℚ)
    (manifests : AList fun _ : String => ManifestInfo) (repos : Option (Finset String))
    (languageOf : String → Option String) :
    KeptApart split minEdgeConfidence manifests repos languageOf ↔
      NoCollision split minEdgeConfidence manifests ∧
        NoCollision split.swap minEdgeConfidence manifests := by
  constructor
  · exact fun ⟨h, h'⟩ => ⟨h.noCollision, h'.noCollision⟩
  · rintro ⟨h, h'⟩
    have hswap : split.swap.swap = split := by
      obtain ⟨side, hrepo, hedge⟩ := split
      simp [RepoSplit.swap]
    exact ⟨h.unaffected h', h'.unaffected (hswap.symm ▸ h)⟩

/-! ## Two repositories with a file of one path -/

/-- A constant on line 10 of the application's `src/index.ts`, and a function on lines 1 to 50 of
the library's. -/
def sharedPath : Graph where
  symbols :=
    [⟨"sym:limit", "LIMIT", .constant, "repo:app", "src/index.ts", 10, 10, none, false, none,
        .public⟩,
      ⟨"sym:setup", "setup", .function, "repo:lib", "src/index.ts", 1, 50, none, false, none,
        .public⟩]
  edges := []
  skippedCorrupt := 0
  uid_key := by decide +kernel

def appSide : RepoSplit sharedPath where
  side uid := uid = "sym:limit"
  repo_side := by decide +kernel
  edge_side _ he := nomatch he

lemma walkConf_of_no_edges {g : Graph} (hedges : g.edges = [])
    (hentry : entryPointUids g ∅ = []) : walkConf g (3 / 10) ∅ = ∅ := by
  rw [walkConf, hedges, hentry]
  have hrun : WorkLoop.runLoop (raiseStep (network [] (3 / 10))) 1 (.init [] 1) = some ∅ := rfl
  exact widest_eq_of_run hrun

/-- Alone, the application's constant is reported; next to the library it is taken for a local
binding of the library's function, and is neither reported nor analysed. -/
theorem deadCode_hides_constant :
    (detectDeadCodeInner (sharedPath.part appSide.side) (3 / 10) ∅ none
        fun _ => none).unreachableSymbols =
        [⟨"sym:limit", "LIMIT", "Constant", "src/index.ts", "public", .low⟩] ∧
      (detectDeadCodeInner sharedPath (3 / 10) ∅ none fun _ => none).unreachableSymbols =
        [⟨"sym:setup", "setup", "Function", "src/index.ts", "public", .low⟩] ∧
      ¬KeptApart appSide (3 / 10) ∅ none fun _ => none := by
  have halone : (detectDeadCodeInner (sharedPath.part appSide.side) (3 / 10) ∅ none
      fun _ => none).unreachableSymbols =
      [⟨"sym:limit", "LIMIT", "Constant", "src/index.ts", "public", .low⟩] := by
    have hwalk : walkConf (sharedPath.part appSide.side) (3 / 10) ∅ = ∅ :=
      walkConf_of_no_edges (by decide +kernel) (by decide +kernel)
    rw [unreachableSymbols_eq]
    unfold ranked isReported isTwin reachableTwins suppressedMemberUids unreachableClassUids
      rankedRow strongReachable weakReachable bestPathConf
    rw [hwalk]
    decide +kernel
  have hboth : (detectDeadCodeInner sharedPath (3 / 10) ∅ none fun _ => none).unreachableSymbols =
      [⟨"sym:setup", "setup", "Function", "src/index.ts", "public", .low⟩] := by
    have hwalk : walkConf sharedPath (3 / 10) ∅ = ∅ :=
      walkConf_of_no_edges rfl (by decide +kernel)
    rw [unreachableSymbols_eq]
    unfold ranked isReported isTwin reachableTwins suppressedMemberUids unreachableClassUids
      rankedRow strongReachable weakReachable bestPathConf
    rw [hwalk]
    decide +kernel
  refine ⟨halone, hboth, fun hapart => ?_⟩
  have hrows := hapart.1.rows
  rw [halone, hboth] at hrows
  exact absurd hrows (by decide +kernel)

end DeadCode
end NestWeaver
