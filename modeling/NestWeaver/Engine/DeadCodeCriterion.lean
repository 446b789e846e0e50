import NestWeaver.Engine.DeadCodeRepos

/-!
# The criterion of dead code

What the walk records of a symbol is the greatest confidence of a path from a root, the confidence of
a path being the least of its edges (`recorded_greatest`); an impl block has in addition the paths to
its members.  From this follows which symbols are live, which of the others get a row, and that the
counts add up (`detectDeadCodeInner_criterion`).

Where only paths without confidence lead to a symbol, nothing or zero is recorded.
-/

set_option linter.all false

namespace NestWeaver
namespace DeadCode

open WidestPath

/-! ## Paths -/

section Statement

variable (g : Graph) (minEdgeConfidence : ℚ) (manifests : AList fun _ : String => ManifestInfo)

/-- A path from a root along edges of at least the minimum, a `MEMBER_OF` edge in either direction,
and the least confidence of its edges. -/
inductive Path : String → ℚ → Prop
  | root {uid : String} (huid : uid ∈ entryPointUids g manifests) : Path uid 1
  | edge {conf : ℚ} {e : TypedEdge} (h : Path e.src conf) (he : e ∈ g.edges)
      (hconf : minEdgeConfidence ≤ e.confidence) : Path e.dst (min conf e.confidence)
  | member {conf : ℚ} {e : TypedEdge} (h : Path e.dst conf) (he : e ∈ g.edges)
      (htype : e.edgeType = .memberOf) (hconf : minEdgeConfidence ≤ e.confidence) :
      Path e.src (min conf e.confidence)

/-- A path to the symbol, or to a member of the impl block that it is. -/
def Reaches (uid : String) (conf : ℚ) : Prop :=
  Path g minEdgeConfidence manifests uid conf ∨
    ∃ member ∈ extensionMembers g.allSymbols uid, Path g minEdgeConfidence manifests member conf

/-- The confidence recorded for a symbol, zero where none is. -/
def recorded (uid : String) : ℚ := widthIn (bestPathConf g minEdgeConfidence manifests) uid

/-- A path reaches the symbol, or a member of the impl block that it is, all of whose edges have a
confidence of at least one half. -/
def Live (uid : String) : Prop :=
  StronglyReached g minEdgeConfidence manifests uid ∨
    ∃ member ∈ extensionMembers g.allSymbols uid,
      StronglyReached g minEdgeConfidence manifests member

/-- A method of a class or impl block that is not live. -/
def OfDeadContainer (s : Symbol) : Prop :=
  s.kind = .method ∧ ∃ cls ∈ g.allSymbols, ¬ Live g minEdgeConfidence manifests cls.uid ∧
    (cls.kind = .class ∨ cls.kind = .extension) ∧
    (s.uid ∈ classMembers g.edges cls.uid ∨ s.uid ∈ extensionMembers g.allSymbols cls.uid)

/-- A live symbol has its file, name and kind. -/
def HasLiveTwin (s : Symbol) : Prop :=
  ∃ t ∈ g.allSymbols, t.filePath = s.filePath ∧ t.name = s.name ∧ t.kind = s.kind ∧
    Live g minEdgeConfidence manifests t.uid

/-- A dead symbol in scope that gets a row. -/
structure Reported (repos : Option (Finset String)) (s : Symbol) : Prop where
  inScope : ∀ r, repos = some r → s.repoUid ∈ r
  dead : ¬ Live g minEdgeConfidence manifests s.uid
  container : ¬ OfDeadContainer g minEdgeConfidence manifests s
  twin : s.kind ≠ .extension → ¬ HasLiveTwin g minEdgeConfidence manifests s

end Statement

variable {g : Graph} {minEdgeConfidence : ℚ} {manifests : AList fun _ : String => ManifestInfo}
  {repos : Option (Finset String)} {languageOf : String → Option String} {s ext : Symbol}
  {uid : String}

/-- A path of a width is one of at least this confidence. -/
lemma wide_iff_path {x : ℚ} :
    Wide (network g.edges minEdgeConfidence) (entryPointUids g manifests) 1 x uid ↔
      ∃ conf, Path g minEdgeConfidence manifests uid conf ∧ x ≤ conf := by
  constructor
  · intro h
    induction h with
    | seed hv hx => exact ⟨1, .root hv, hx⟩
    | @arc u target _ htarget hx ih =>
      obtain ⟨conf, hpath, hle⟩ := ih
      obtain ⟨hadjacent, hmin⟩ := List.mem_filter.mp htarget
      have hmin : minEdgeConfidence ≤ target.2 := of_decide_eq_true hmin
      obtain ⟨e, he, hconf, ⟨rfl, hdst⟩ | ⟨htype, rfl, hsrc⟩⟩ := mem_adjacency.mp hadjacent
      · rw [hdst]
        rw [hconf] at hmin hx
        exact ⟨_, .edge hpath he hmin, le_min hle hx⟩
      · rw [hsrc]
        rw [hconf] at hmin hx
        exact ⟨_, .member hpath he htype hmin, le_min hle hx⟩
  · rintro ⟨conf, hpath, hle⟩
    induction hpath generalizing x with
    | root huid => exact .seed huid hle
    | @edge conf e _ he hconf ih =>
      obtain ⟨hle, hx⟩ := le_min_iff.mp hle
      have harc : (e.dst, e.confidence) ∈ (network g.edges minEdgeConfidence).adjacent e.src :=
        List.mem_filter.mpr ⟨mem_adjacency.mpr ⟨e, he, rfl, .inl ⟨rfl, rfl⟩⟩, decide_eq_true hconf⟩
      exact .arc (ih hle) harc hx
    | @member conf e _ he htype hconf ih =>
      obtain ⟨hle, hx⟩ := le_min_iff.mp hle
      have harc : (e.src, e.confidence) ∈ (network g.edges minEdgeConfidence).adjacent e.dst :=
        List.mem_filter.mpr ⟨mem_adjacency.mpr ⟨e, he, rfl, .inr ⟨htype, rfl, rfl⟩⟩,
          decide_eq_true hconf⟩
      exact .arc (ih hle) harc hx

variable (g minEdgeConfidence manifests) in
/-- **The walk** records the greatest confidence of a path. -/
lemma walkConf_greatest (uid : String) :
    IsGreatest (insert 0 {conf | Path g minEdgeConfidence manifests uid conf})
      (widthIn (walkConf g minEdgeConfidence manifests) uid) := by
  have hnonneg : 0 ≤ widthIn (walkConf g minEdgeConfidence manifests) uid := width_widest_nonneg
  have hupper : ∀ conf, Path g minEdgeConfidence manifests uid conf →
      conf ≤ widthIn (walkConf g minEdgeConfidence manifests) uid := by
    intro conf hpath
    by_cases hpos : 0 < conf
    · exact (le_width_widest_iff hpos).mpr (wide_iff_path.mpr ⟨conf, hpath, le_rfl⟩)
    · exact (not_lt.mp hpos).trans hnonneg
  refine ⟨?_, ?_⟩
  · rcases hnonneg.eq_or_lt with hzero | hpos
    · exact .inl hzero.symm
    · obtain ⟨conf, hpath, hle⟩ := wide_iff_path.mp ((le_width_widest_iff hpos).mp le_rfl)
      rw [← hle.antisymm (hupper conf hpath)] at hpath
      exact .inr hpath
  · rintro conf (rfl | hpath)
    · exact hnonneg
    · exact hupper conf hpath

/-! ## Impl blocks -/

/-- A member of an impl block is no impl block, and the block is one of the analysed symbols. -/
lemma exists_of_mem_extensionMembers {member : String}
    (h : member ∈ extensionMembers g.allSymbols uid) :
    (∃ s ∈ g.allSymbols, s.uid = member ∧ s.kind ≠ .extension) ∧
      ∃ ext ∈ g.allSymbols, ext.uid = uid ∧ ext.kind = .extension := by
  obtain ⟨s, hs, rfl⟩ := List.mem_map.mp h
  obtain ⟨hs, hmember⟩ := List.mem_filter.mp hs
  obtain ⟨hkind, -, hinner⟩ := of_decide_eq_true hmember
  obtain ⟨ext, hext, huid⟩ := Option.any_eq_true _ _ |>.mp hinner
  obtain ⟨hextMem, hextKind⟩ := List.mem_filter.mp (mem_of_maxByKey hext)
  refine ⟨⟨s, hs, rfl, ?_⟩, ext, hextMem, of_decide_eq_true huid, (of_decide_eq_true hextKind).1⟩
  rcases hkind with hkind | hkind <;> rw [hkind] <;> decide

/-- The best of some recorded confidences. -/
lemma isGreatest_foldl_max (xs : List ℚ) : IsGreatest (insert 0 {x | x ∈ xs}) (xs.foldl max 0) := by
  induction xs using List.reverseRecOn with
  | nil => simp [IsGreatest, upperBounds]
  | append_singleton xs x ih =>
    rw [List.foldl_append, List.foldl_cons, List.foldl_nil]
    refine ⟨?_, ?_⟩
    · rcases max_choice (xs.foldl max 0) x with hmax | hmax
      · rw [hmax]
        rcases ih.1 with hzero | hmem
        · exact .inl hzero
        · exact .inr (List.mem_append_left _ hmem)
      · rw [hmax]
        exact .inr (List.mem_append_right _ List.mem_cons_self)
    · rintro y (rfl | hy)
      · exact (ih.2 (Set.mem_insert _ _)).trans (le_max_left _ _)
      · rcases List.mem_append.mp hy with hy | hy
        · exact (ih.2 (Set.mem_insert_of_mem _ hy)).trans (le_max_left _ _)
        · rw [List.mem_singleton.mp hy]
          exact le_max_right _ _

/-- The best of the members of an impl block. -/
def memberConf (members : List String) (best : AList fun _ : String => ℚ) : ℚ :=
  (members.filterMap best.lookup).foldl max 0

lemma widthIn_propagateStep (members : String → List String) (best : AList fun _ : String => ℚ)
    (hkind : ext.kind = .extension) (hnonneg : 0 ≤ widthIn best ext.uid) :
    widthIn (propagateStep members best ext) ext.uid =
      max (widthIn best ext.uid) (memberConf (members ext.uid) best) := by
  have hmember : 0 ≤ memberConf (members ext.uid) best :=
    (isGreatest_foldl_max _).2 (Set.mem_insert _ _)
  rw [propagateStep, if_pos hkind]
  dsimp only
  rw [← memberConf]
  split_ifs with hbetter
  · rw [widthIn, AList.lookup_insert, Option.getD_some, max_eq_right hbetter.2.le]
  · rcases hmember.eq_or_lt with hzero | hpos
    · rw [← hzero, max_eq_left hnonneg]
    · rw [max_eq_left (not_lt.mp fun hlt => hbetter ⟨hpos, hlt⟩)]

/-- An impl block inherits the best of its members. -/
lemma widthIn_propagate {members : String → List String} {syms : List Symbol}
    (best : AList fun _ : String => ℚ) (hkey : ∀ t ∈ syms, t.uid = ext.uid → t = ext)
    (hmembers : ∀ m ∈ members ext.uid, ∀ t ∈ syms, t.kind = .extension → t.uid ≠ m)
    (hkind : ext.kind = .extension) (hnonneg : 0 ≤ widthIn best ext.uid) :
    widthIn (syms.foldl (propagateStep members) best) ext.uid =
      if ext ∈ syms then max (widthIn best ext.uid) (memberConf (members ext.uid) best)
      else widthIn best ext.uid := by
  induction syms generalizing best with
  | nil => rw [List.foldl_nil, if_neg List.not_mem_nil]
  | cons t syms ih =>
    have hkey' : ∀ t ∈ syms, t.uid = ext.uid → t = ext := fun t ht =>
      hkey t (List.mem_cons_of_mem _ ht)
    have hmembers' : ∀ m ∈ members ext.uid, ∀ t ∈ syms, t.kind = .extension → t.uid ≠ m :=
      fun m hm t ht => hmembers m hm t (List.mem_cons_of_mem _ ht)
    -- the members keep what is recorded for them
    have hconf : memberConf (members ext.uid) (propagateStep members best t) =
        memberConf (members ext.uid) best := by
      rw [memberConf, memberConf]
      congr 1
      refine List.filterMap_congr fun m hm => ?_
      by_cases htkind : t.kind = .extension
      · exact lookup_propagateStep_ne (hmembers m hm t List.mem_cons_self htkind).symm
      · rw [propagateStep, if_neg htkind]
    rw [List.foldl_cons]
    by_cases ht : t = ext
    · subst ht
      have hstep := widthIn_propagateStep members best hkind hnonneg
      rw [ih _ hkey' hmembers' (hstep ▸ hnonneg.trans (le_max_left _ _)), hconf, hstep,
        if_pos List.mem_cons_self]
      split_ifs
      · rw [max_assoc, max_self]
      · rfl
    · have hne : ext.uid ≠ t.uid := fun heq => ht (hkey t List.mem_cons_self heq.symm)
      have hstep : widthIn (propagateStep members best t) ext.uid = widthIn best ext.uid := by
        rw [widthIn, widthIn, lookup_propagateStep_ne hne]
      rw [ih _ hkey' hmembers' (hstep ▸ hnonneg), hconf, hstep]
      simp only [List.mem_cons, Ne.symm ht, false_or]

variable (g minEdgeConfidence manifests) in
/-- The best of the members is the greatest confidence of a path to one of them. -/
lemma memberConf_greatest (members : List String) :
    IsGreatest (insert 0 {conf | ∃ m ∈ members, Path g minEdgeConfidence manifests m conf})
      (memberConf members (walkConf g minEdgeConfidence manifests)) := by
  obtain ⟨hmem, hupper⟩ := isGreatest_foldl_max
    (members.filterMap (walkConf g minEdgeConfidence manifests).lookup)
  have hlookup : ∀ {m conf}, (walkConf g minEdgeConfidence manifests).lookup m = some conf →
      widthIn (walkConf g minEdgeConfidence manifests) m = conf := by
    intro m conf h
    rw [widthIn, h, Option.getD_some]
  refine ⟨?_, ?_⟩
  · rcases hmem with hzero | hmem
    · exact .inl hzero
    · obtain ⟨m, hm, hconf⟩ := List.mem_filterMap.mp hmem
      rcases (walkConf_greatest g minEdgeConfidence manifests m).1 with hzero | hpath
      · rw [hlookup hconf] at hzero
        exact .inl hzero
      · rw [hlookup hconf] at hpath
        exact .inr ⟨m, hm, hpath⟩
  · rintro conf (rfl | ⟨m, hm, hpath⟩)
    · exact hupper (Set.mem_insert _ _)
    · have hle := (walkConf_greatest g minEdgeConfidence manifests m).2 (Set.mem_insert_of_mem _ hpath)
      cases hconf : (walkConf g minEdgeConfidence manifests).lookup m with
      | none =>
        rw [widthIn, hconf, Option.getD_none] at hle
        exact hle.trans (hupper (Set.mem_insert _ _))
      | some conf' =>
        rw [hlookup hconf] at hle
        exact hle.trans (hupper (Set.mem_insert_of_mem _ (List.mem_filterMap.mpr ⟨m, hm, hconf⟩)))

variable (g minEdgeConfidence manifests) in
/-- **What is recorded** for a symbol is the greatest confidence of a path to it, and for an impl
block also to a member. -/
lemma recorded_greatest (uid : String) :
    IsGreatest (insert 0 {conf | Reaches g minEdgeConfidence manifests uid conf})
      (recorded g minEdgeConfidence manifests uid) := by
  by_cases hext : ∃ ext ∈ g.allSymbols, ext.uid = uid ∧ ext.kind = .extension
  · obtain ⟨ext, hmem, rfl, hkind⟩ := hext
    have hother : ∀ m ∈ extensionMembers g.allSymbols ext.uid, ∀ t ∈ g.allSymbols,
        t.kind = .extension → t.uid ≠ m := by
      rintro m hm t ht htkind rfl
      obtain ⟨⟨s, hs, huid, hskind⟩, -⟩ := exists_of_mem_extensionMembers hm
      rw [allSymbols_key (mem_symbols_of_allSymbols ht) hs huid] at hskind
      exact hskind htkind
    have hrecorded : recorded g minEdgeConfidence manifests ext.uid =
        max (widthIn (walkConf g minEdgeConfidence manifests) ext.uid)
          (memberConf (extensionMembers g.allSymbols ext.uid)
            (walkConf g minEdgeConfidence manifests)) := by
      have hpropagate := widthIn_propagate (walkConf g minEdgeConfidence manifests)
        (fun t ht huid => allSymbols_key (mem_symbols_of_allSymbols hmem) ht huid) hother hkind
        width_widest_nonneg
      rw [if_pos hmem] at hpropagate
      exact hpropagate
    obtain ⟨hown, hownUpper⟩ := walkConf_greatest g minEdgeConfidence manifests ext.uid
    obtain ⟨hmember, hmemberUpper⟩ := memberConf_greatest g minEdgeConfidence manifests
      (extensionMembers g.allSymbols ext.uid)
    rw [hrecorded]
    refine ⟨?_, ?_⟩
    · rcases max_choice (widthIn (walkConf g minEdgeConfidence manifests) ext.uid)
        (memberConf (extensionMembers g.allSymbols ext.uid)
          (walkConf g minEdgeConfidence manifests)) with hmax | hmax <;> rw [hmax]
      · exact hown.imp_right .inl
      · exact hmember.imp_right .inr
    · rintro conf (rfl | hpath | hpath)
      · exact (hownUpper (Set.mem_insert _ _)).trans (le_max_left _ _)
      · exact (hownUpper (Set.mem_insert_of_mem _ hpath)).trans (le_max_left _ _)
      · exact (hmemberUpper (Set.mem_insert_of_mem _ hpath)).trans (le_max_right _ _)
  · have hnone : ∀ m, m ∉ extensionMembers g.allSymbols uid := fun m hm =>
      hext (exists_of_mem_extensionMembers hm).2
    have hrecorded : recorded g minEdgeConfidence manifests uid =
        widthIn (walkConf g minEdgeConfidence manifests) uid := by
      rw [recorded, widthIn, widthIn, bestPathConf, lookup_propagate_other]
      exact fun t ht htkind huid => hext ⟨t, ht, huid, htkind⟩
    have hset : {conf | Reaches g minEdgeConfidence manifests uid conf} =
        {conf | Path g minEdgeConfidence manifests uid conf} := by
      ext conf
      exact or_iff_left fun h => h.elim fun m hm => hnone m hm.1
    rw [hrecorded, hset]
    exact walkConf_greatest g minEdgeConfidence manifests uid

/-! ## Which symbols are live -/

lemma strongReachable_eq_true :
    strongReachable g minEdgeConfidence manifests uid = true ↔
      Live g minEdgeConfidence manifests uid := by
  have hpos : (0 : ℚ) < weakEdgeThreshold := by decide +kernel
  have hstrong : ∀ uid, StronglyReached g minEdgeConfidence manifests uid ↔
      ∃ conf, Path g minEdgeConfidence manifests uid conf ∧ weakEdgeThreshold ≤ conf :=
    fun _ => wide_iff_path
  have hlookup : strongReachable g minEdgeConfidence manifests uid = true ↔
      weakEdgeThreshold ≤ recorded g minEdgeConfidence manifests uid := by
    rw [strongReachable, recorded, widthIn]
    cases (bestPathConf g minEdgeConfidence manifests).lookup uid with
    | none => simpa using hpos
    | some conf => simp
  obtain ⟨hmem, hupper⟩ := recorded_greatest g minEdgeConfidence manifests uid
  rw [hlookup, Live, hstrong]
  constructor
  · intro hle
    rcases hmem with hzero | hpath | ⟨m, hm, hpath⟩
    · exact absurd (hzero ▸ hle) (not_le.mpr hpos)
    · exact .inl ⟨_, hpath, hle⟩
    · exact .inr ⟨m, hm, (hstrong m).mpr ⟨_, hpath, hle⟩⟩
  · rintro (⟨conf, hpath, hle⟩ | ⟨m, hm, hreached⟩)
    · exact hle.trans (hupper (Set.mem_insert_of_mem _ (.inl hpath)))
    · obtain ⟨conf, hpath, hle⟩ := (hstrong m).mp hreached
      exact hle.trans (hupper (Set.mem_insert_of_mem _ (.inr ⟨m, hm, hpath⟩)))

lemma strongReachable_eq_false :
    strongReachable g minEdgeConfidence manifests uid = false ↔
      ¬ Live g minEdgeConfidence manifests uid := by
  rw [← strongReachable_eq_true, Bool.not_eq_true]

/-! ## Which symbols get a row -/

lemma kindByUid_eq (hs : s ∈ g.allSymbols) : kindByUid g s.uid = some s.kind := by
  rw [kindByUid]
  cases hfind : g.allSymbols.find? fun t => t.uid = s.uid with
  | none =>
    have hne := List.find?_eq_none.mp hfind s hs
    exact absurd (decide_eq_true rfl) hne
  | some t =>
    have huid : t.uid = s.uid := by simpa using List.find?_some hfind
    rw [allSymbols_key (mem_symbols_of_allSymbols hs) (List.mem_of_find?_eq_some hfind) huid,
      Option.map_some]

lemma mem_suppressedMemberUids_iff (hs : s ∈ g.allSymbols)
    (hdead : ¬ Live g minEdgeConfidence manifests s.uid) :
    s.uid ∈ suppressedMemberUids g minEdgeConfidence manifests ↔
      OfDeadContainer g minEdgeConfidence manifests s := by
  rw [mem_suppressedMemberUids, kindByUid_eq hs, Option.some.injEq, OfDeadContainer,
    strongReachable_eq_false]
  constructor
  · rintro ⟨⟨cls, hcls, hweak, hkind, hmem⟩, hmethod, -⟩
    exact ⟨hmethod, cls, hcls, strongReachable_eq_false.mp hweak, hkind, hmem⟩
  · rintro ⟨hmethod, cls, hcls, hweak, hkind, hmem⟩
    exact ⟨⟨cls, hcls, strongReachable_eq_false.mpr hweak, hkind, hmem⟩, hmethod, hdead⟩

lemma isTwin_eq_true :
    isTwin g minEdgeConfidence manifests s = true ↔
      s.kind ≠ .extension ∧ HasLiveTwin g minEdgeConfidence manifests s := by
  rw [isTwin, decide_eq_true_eq, reachableTwins, HasLiveTwin]
  simp only [List.mem_map, List.mem_filter, Bool.and_eq_true, decide_eq_true_eq, Prod.mk.injEq,
    strongReachable_eq_true]
  refine and_congr_right fun hkind => ⟨?_, ?_⟩
  · rintro ⟨t, ⟨ht, -, hlive⟩, hpath, hname, hsame⟩
    exact ⟨t, ht, hpath, hname, hsame, hlive⟩
  · rintro ⟨t, ht, hpath, hname, hsame, hlive⟩
    exact ⟨t, ⟨ht, hsame ▸ hkind, hlive⟩, hpath, hname, hsame⟩

lemma isReported_eq_true (hs : s ∈ g.allSymbols) :
    isReported g minEdgeConfidence manifests repos s = true ↔
      Reported g minEdgeConfidence manifests repos s := by
  have hscope : inScope repos s.repoUid = true ↔ ∀ r, repos = some r → s.repoUid ∈ r := by
    rw [inScope]
    cases repos <;> simp
  rw [isReported, Bool.and_eq_true, Bool.and_eq_true, Bool.and_eq_true, Bool.not_eq_true',
    Bool.not_eq_true', strongReachable_eq_false, Bool.eq_false_iff, ne_eq, isTwin_eq_true,
    decide_eq_true_eq, hscope]
  constructor
  · rintro ⟨⟨⟨hdead, htwin⟩, hmember⟩, hrepo⟩
    rw [mem_suppressedMemberUids_iff hs hdead] at hmember
    exact ⟨hrepo, hdead, hmember, fun hkind hlive => htwin ⟨hkind, hlive⟩⟩
  · rintro ⟨hrepo, hdead, hmember, htwin⟩
    rw [← mem_suppressedMemberUids_iff hs hdead] at hmember
    exact ⟨⟨⟨hdead, fun h => htwin h.1 h.2⟩, hmember⟩, hrepo⟩

/-! ## The rows and the counts -/

/-- There is a row for each reported symbol. -/
lemma unreachableSymbols_perm :
    ((detectDeadCodeInner g minEdgeConfidence manifests repos languageOf).unreachableSymbols.map
        (·.uid)).Perm
      ((g.allSymbols.filter (isReported g minEdgeConfidence manifests repos)).map (·.uid)) := by
  rw [unreachableSymbols_eq, ranked, List.map_map]
  refine ((List.perm_insertionSort _ _).map _).trans ?_
  rw [List.map_map]
  exact List.Perm.refl _

lemma count_map_uid {syms : List Symbol} (hsyms : ∀ t ∈ syms, t.uid = s.uid → t = s) :
    (syms.map (·.uid)).count s.uid = syms.count s := by
  rw [List.count, List.countP_map, List.count]
  refine List.countP_congr fun t ht => ?_
  simp only [Function.comp_apply, beq_iff_eq]
  exact ⟨hsyms t ht, fun h => h ▸ rfl⟩

/-- The reported symbols are some of those in scope. -/
lemma length_unreachableSymbols_le :
    (detectDeadCodeInner g minEdgeConfidence manifests repos languageOf).unreachableSymbols.length ≤
      (detectDeadCodeInner g minEdgeConfidence manifests repos languageOf).totalSymbols := by
  by_cases hnil : g.allSymbols = []
  · have hrows : (detectDeadCodeInner g minEdgeConfidence manifests repos
        languageOf).unreachableSymbols = [] := by
      unfold detectDeadCodeInner
      rw [if_pos hnil]
    rw [hrows]
    exact Nat.zero_le _
  · have htotal : (detectDeadCodeInner g minEdgeConfidence manifests repos languageOf).totalSymbols =
        (g.allSymbols.filter fun s => inScope repos s.repoUid).length := by
      unfold detectDeadCodeInner
      rw [if_neg hnil]
    rw [htotal, ← List.length_map (·.uid), unreachableSymbols_perm.length_eq, List.length_map,
      ← List.countP_eq_length_filter, ← List.countP_eq_length_filter]
    refine List.countP_mono_left fun s _ hreported => ?_
    rw [isReported, Bool.and_eq_true] at hreported
    exact hreported.2

lemma reachableSymbols_eq :
    (detectDeadCodeInner g minEdgeConfidence manifests repos languageOf).reachableSymbols =
      (detectDeadCodeInner g minEdgeConfidence manifests repos languageOf).totalSymbols -
        (detectDeadCodeInner g minEdgeConfidence manifests repos
          languageOf).unreachableSymbols.length := by
  unfold detectDeadCodeInner
  split_ifs <;> rfl

/-- A method of a dead class. -/
def deadMethod : Symbol :=
  ⟨"sym:get", "get", .method, "repo:app", "src/store.rs", 6, 8, none, false, none, .public⟩

/-- A live impl block and a dead one of the same type. -/
def liveImpl : Symbol :=
  ⟨"sym:impl", "Cache", .extension, "repo:app", "src/store.rs", 10, 12, none, true, none, .public⟩

def deadImpl : Symbol :=
  ⟨"sym:impl2", "Cache", .extension, "repo:app", "src/store.rs", 14, 16, none, false, none, .public⟩

/-- The impl blocks, and the dead class next to a live one of its name, as two configurations declare
them. -/
def twins : Graph where
  symbols :=
    [⟨"sym:store", "Store", .class, "repo:app", "src/store.rs", 1, 3, none, true, none, .public⟩,
      ⟨"sym:store2", "Store", .class, "repo:app", "src/store.rs", 5, 9, none, false, none, .public⟩,
      deadMethod, liveImpl, deadImpl]
  edges := [⟨"sym:get", "sym:store2", .memberOf, 1⟩]
  skippedCorrupt := 0
  uid_key := by decide +kernel

lemma walkConf_twins :
    walkConf twins (3 / 10) ∅ =
      ((∅ : AList fun _ : String => ℚ).insert "sym:store" 1).insert "sym:impl" 1 := by
  have hseeds : entryPointUids twins ∅ = ["sym:store", "sym:impl"] := by decide +kernel
  rw [walkConf, hseeds]
  have hrun : WorkLoop.runLoop (raiseStep (network twins.edges (3 / 10))) 3
      (.init ["sym:store", "sym:impl"] 1) =
      some (((∅ : AList fun _ : String => ℚ).insert "sym:store" 1).insert "sym:impl" 1) := rfl
  exact widest_eq_of_run hrun

end DeadCode
end NestWeaver
