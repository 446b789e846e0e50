import NestWeaver.Engine.ReacherDepths
import NestWeaver.Framework.Accumulate
import NestWeaver.Framework.FirstSeen
import NestWeaver.Framework.Iteration

/-!
# Affected tests

`affected_tests_within` of `crates/nestweaver-engine/src/affected_tests.rs`, over a store whose queries
succeed: the tests that the symbols of the changed files reach along at most three reverse edges.  A test
found from several changed symbols keeps its least depth, and its file is listed in the tier of the least
depth of its tests (`affectedTests_tiers`).

A `HashMap` is a list of entries, and is visited in some order.  The status and the notifications, which say
how complete the index was, are left out.
-/

set_option linter.all false

namespace NestWeaver
namespace AffectedTests

open WorkLoop Traverse

/-! ## Symbols and files -/

/-- A test symbol selected for a tier. -/
structure AffectedTestSymbol where
  symbolUid : String
  name : String
  testFile : String
  depth : ℕ
  edgeType : String
  confidence : ℚ
  deriving DecidableEq, Repr

/-- One test file in a tier, with the tests it contributes. -/
structure AffectedTestFile where
  testFile : String
  tests : List String
  symbolUid : String
  confidence : ℚ
  selectedBy : Option String
  deriving DecidableEq, Repr

/-- A file that its top-level code selected counts as one test. -/
def AffectedTestFile.testCount (f : AffectedTestFile) : ℕ :=
  if f.tests = [] ∧ f.selectedBy.isSome then 1 else f.tests.length

/-- A changed source symbol. -/
structure ChangedSymbolRef where
  uid : String
  name : String
  filePath : String
  repoUid : String
  deriving DecidableEq, Repr

structure AffectedTestsResult where
  changedFiles : List String
  changedSymbols : List ChangedSymbolRef
  tier1 : List AffectedTestFile
  tier2 : List AffectedTestFile
  tier3 : List AffectedTestFile
  summary : String
  deriving DecidableEq, Repr

inductive ChangedFileClass
  | source | executionDependency | documentationOnly | unknown
  deriving DecidableEq, Repr

/-- The symbols and typed edges of a store.  A uid is a primary key, and a confidence is at most one. -/
structure Graph where
  symbols : List Symbol
  edges : List TypedEdge
  uid_key : ∀ s ∈ symbols, ∀ t ∈ symbols, s.uid = t.uid → s = t
  confidence_le_one : ∀ e ∈ edges, e.confidence ≤ 1

/-- What paths and uids say of themselves: the test files, the class of a changed file, and the end of
the uid of a module owner. -/
structure Conventions where
  isTestFile : String → Bool
  classifyChangedFile : String → ChangedFileClass
  ownerSuffix : String

def Conventions.isModuleOwnerUid (conv : Conventions) (uid : String) : Bool :=
  "sym:".toList <+: uid.toList ∧ conv.ownerSuffix.toList <:+ uid.toList

/-- `MAX_TEST_DEPTH`. -/
def maxTestDepth : ℕ := 3

/-- `MIN_CONFIDENCE`. -/
def minConfidence : ℚ := 3 / 10

section Select

variable (g : Graph) (conv : Conventions) (order : Iteration) (allowedSymbols : Option (Finset String))
  (repoUid : Option String) (changedFiles : List String)

/-! ## The changed symbols -/

def symbolsForChangedFile (filePath : String) : List Symbol :=
  g.symbols.filter fun s => s.filePath = filePath ∧ repoUid.all (s.repoUid = ·)

/-- The allowed symbols of a changed file. -/
def changedFileSymbols (filePath : String) : List Symbol :=
  (symbolsForChangedFile g repoUid filePath).filter fun s => allowedSymbols.all (s.uid ∈ ·)

/-- The symbols of the changed files, less the files that are documentation only. -/
def allChanged : List Symbol :=
  (changedFiles.filter fun f => conv.classifyChangedFile f ≠ .documentationOnly).flatMap
    (changedFileSymbols g allowedSymbols repoUid)

def changedRef (s : Symbol) : ChangedSymbolRef := ⟨s.uid, s.name, s.filePath, s.repoUid⟩

def changedSymbols : List ChangedSymbolRef :=
  (firstSeen (·.uid) ((allChanged g conv allowedSymbols repoUid changedFiles).filter
    fun s => !s.isModuleOwner)).map changedRef

/-- The module owners of changed files are kept aside. -/
def changedOwners : List ChangedSymbolRef :=
  ((allChanged g conv allowedSymbols repoUid changedFiles).filter (·.isModuleOwner)).map
    changedRef

/-- Changed source test files without symbols. -/
def filesWithoutSymbols : List String :=
  changedFiles.filter fun f => conv.classifyChangedFile f = .source ∧
    changedFileSymbols g allowedSymbols repoUid f = [] ∧ conv.isTestFile f

/-! ## The selected tests -/

def isTestSymbol (sym : Symbol) : Bool :=
  conv.isTestFile sym.filePath || sym.entryPointKind = some .testEntry

def symByUid (uid : String) : Option Symbol :=
  (g.symbols.filter fun s => allowedSymbols.all (s.uid ∈ ·)).find? fun s => s.uid = uid

/-- The changed symbols that are tests themselves. -/
def changedTests : List AffectedTestSymbol :=
  ((changedSymbols g conv allowedSymbols repoUid changedFiles ++
    changedOwners g conv allowedSymbols repoUid changedFiles).filter fun cs =>
      ((symByUid g allowedSymbols cs.uid).map (isTestSymbol conv)).getD
        (conv.isTestFile cs.filePath)).map
    fun cs => ⟨cs.uid, cs.name, cs.filePath, 1, "CHANGED", 1⟩

/-- A reached symbol, when it is a test. -/
def reachedTest (node : Reacher) : Option AffectedTestSymbol :=
  match symByUid g allowedSymbols node.uid with
  | none => none
  | some sym =>
    if isTestSymbol conv sym then
      some ⟨node.uid, sym.name, sym.filePath, node.depth, node.edgeType.relTableName,
        node.confidence⟩
    else none

/-- The tests that a changed symbol reaches. -/
def reachedTests (cs : ChangedSymbolRef) : List AffectedTestSymbol :=
  (order.visit (reachers cs.uid (buildRevImpactAdjacency g.edges allowedSymbols) maxTestDepth
    minConfidence)).filterMap (reachedTest g conv allowedSymbols)

/-- The better of two selections of a symbol: the shallower one, and of these the one of higher
confidence. -/
def better (candidate existing : AffectedTestSymbol) : AffectedTestSymbol :=
  if existing.depth < candidate.depth ∨
      (existing.depth = candidate.depth ∧ existing.confidence ≥ candidate.confidence) then existing
  else candidate

def consider (best : List AffectedTestSymbol) (candidate : AffectedTestSymbol) :
    List AffectedTestSymbol :=
  upsert (·.symbolUid) candidate.symbolUid candidate (better candidate) best

def candidates : List AffectedTestSymbol :=
  changedTests g conv allowedSymbols repoUid changedFiles ++
    (changedSymbols g conv allowedSymbols repoUid changedFiles).flatMap
      (reachedTests g conv order allowedSymbols)

def bestTests : List AffectedTestSymbol :=
  (candidates g conv order allowedSymbols repoUid changedFiles).foldl consider []

/-! ## The tiers -/

/-- Confidence descending, then by file and name. -/
def AffectedTestSymbol.Before (a b : AffectedTestSymbol) : Prop :=
  b.confidence < a.confidence ∨ (b.confidence = a.confidence ∧
    (a.testFile < b.testFile ∨ (a.testFile = b.testFile ∧ a.name ≤ b.name)))

instance : DecidableRel AffectedTestSymbol.Before := fun a b =>
  inferInstanceAs (Decidable (b.confidence < a.confidence ∨ (b.confidence = a.confidence ∧
    (a.testFile < b.testFile ∨ (a.testFile = b.testFile ∧ a.name ≤ b.name)))))

/-- A test of the file: a module owner is not listed by name, and a name is listed once. -/
def AffectedTestFile.addTest (conv : Conventions) (sym : AffectedTestSymbol)
    (entry : AffectedTestFile) : AffectedTestFile :=
  let tests :=
    if !conv.isModuleOwnerUid sym.symbolUid ∧ sym.name ∉ entry.tests then entry.tests ++ [sym.name]
    else entry.tests
  if sym.confidence > entry.confidence then
    { entry with tests, confidence := sym.confidence, symbolUid := sym.symbolUid }
  else { entry with tests }

/-- The entry of a file, with its first test. -/
def AffectedTestFile.ofTest (conv : Conventions) (sym : AffectedTestSymbol) : AffectedTestFile :=
  addTest conv sym ⟨sym.testFile, [], sym.symbolUid, sym.confidence, none⟩

/-- `SELECTED_BY_TOP_LEVEL_CODE`. -/
def selectedByTopLevelCode : String := "top_level_code"

/-- A file that only its module owner selected says so. -/
def AffectedTestFile.disclose (conv : Conventions) (entry : AffectedTestFile) : AffectedTestFile :=
  if entry.tests = [] ∧ conv.isModuleOwnerUid entry.symbolUid then
    { entry with selectedBy := some selectedByTopLevelCode }
  else entry

def groupByFile (syms : List AffectedTestSymbol) : List AffectedTestFile :=
  (accumulate AffectedTestFile.testFile AffectedTestSymbol.testFile (.ofTest conv) (.addTest conv)
    (syms.insertionSort AffectedTestSymbol.Before)).map (.disclose conv)

/-- The tier of a depth. -/
def tierOf (depth : ℕ) : ℕ := if depth ≤ 1 then 1 else if depth = 2 then 2 else 3

/-- The least depth of the tests of each file. -/
def fileDepth : List (String × ℕ) :=
  leasts ((order.visit (bestTests g conv order allowedSymbols repoUid changedFiles)).map
    fun sym => (sym.testFile, sym.depth))

/-- The tests whose files are in a tier. -/
def tierSyms (tier : ℕ) : List AffectedTestSymbol :=
  (order.visit (bestTests g conv order allowedSymbols repoUid changedFiles)).filter fun sym =>
    tierOf ((((fileDepth g conv order allowedSymbols repoUid changedFiles).find?
      fun e => e.1 = sym.testFile).map Prod.snd).getD sym.depth) = tier

def countTests (files : List AffectedTestFile) : ℕ := (files.map (·.testCount)).sum

def affectedTestsWithin : AffectedTestsResult :=
  let selected := groupByFile conv (tierSyms g conv order allowedSymbols repoUid changedFiles 1)
  let tier2 := groupByFile conv (tierSyms g conv order allowedSymbols repoUid changedFiles 2)
  let tier3 := groupByFile conv (tierSyms g conv order allowedSymbols repoUid changedFiles 3)
  let alwaysIncluded := (filesWithoutSymbols g conv allowedSymbols repoUid changedFiles).filter
    fun file => file ∉ (selected ++ tier2 ++ tier3).map (·.testFile)
  let tier1 := selected ++ alwaysIncluded.map fun file => ⟨file, [], "", 1, none⟩
  { changedFiles
    changedSymbols := changedSymbols g conv allowedSymbols repoUid changedFiles
    tier1
    tier2
    tier3
    summary := toString (countTests tier1) ++ " tier-1, " ++ toString (countTests tier2) ++
      " tier-2, " ++ toString (countTests tier3) ++ " tier-3 tests affected" }

/-! ## Paths to a test -/

/-- A path of admissible reverse edges from a changed symbol, with its length and the product of its
confidences. -/
inductive ReversePath (changed : String) : String → ℕ → ℚ → Prop
  | changed : ReversePath changed changed 0 1
  | caller {k : ℕ} {p : ℚ} {e : TypedEdge} (h : ReversePath changed e.dst k p)
      (he : e ∈ structuralEdges g.edges allowedSymbols) (hconf : minConfidence ≤ e.confidence) :
      ReversePath changed e.src (k + 1) (p * e.confidence)

/-- A path of one to three edges whose product is not below the threshold. -/
def Within (changed uid : String) (k : ℕ) (p : ℚ) : Prop :=
  k ≠ 0 ∧ k ≤ maxTestDepth ∧ impactThreshold ≤ p ∧ ReversePath g allowedSymbols changed uid k p

/-- To every other symbol the greatest product is that of a shortest path. -/
def ShortestAreBest (changed : String) : Prop :=
  ∀ uid, uid ≠ changed → ∀ k p, Within g allowedSymbols changed uid k p →
    ∃ j q, IsLeast {i | ∃ r, Within g allowedSymbols changed uid i r} j ∧
      Within g allowedSymbols changed uid j q ∧ p ≤ q

end Select

section Paths

variable {g : Graph} {allowedSymbols : Option (Finset String)} {changed uid : String} {k : ℕ}
  {p : ℚ}

/-- The store's walk over the adjacency of a graph. -/
abbrev testWalk (g : Graph) (allowedSymbols : Option (Finset String)) (changed : String) : WalkArgs :=
  overAdjacency changed g.edges allowedSymbols maxTestDepth minConfidence

lemma ReversePath.eq_of_zero (h : ReversePath g allowedSymbols changed uid 0 p) : uid = changed := by
  cases h
  rfl

lemma ReversePath.bounds (h : ReversePath g allowedSymbols changed uid k p) : 0 < p ∧ p ≤ 1 := by
  induction h with
  | changed => exact ⟨zero_lt_one, le_rfl⟩
  | @caller k p e _ he hconf ih =>
    have hpos : (0 : ℚ) < e.confidence := lt_of_lt_of_le (by decide +kernel) hconf
    have hle := g.confidence_le_one e (mem_structuralEdges.mp he).1
    exact ⟨mul_pos ih.1 hpos, mul_le_one₀ ih.2 hpos.le hle⟩

/-- Without the detours over the changed symbol a path is no longer and its product no smaller. -/
lemma ReversePath.exists_callerPath (h : ReversePath g allowedSymbols changed uid k p)
    (hp : impactThreshold ≤ p) :
    ∃ j q, j ≤ k ∧ p ≤ q ∧
      CallerPath (testWalk g allowedSymbols changed) (structuralEdges g.edges allowedSymbols)
        (testWalk g allowedSymbols changed).Keeps uid j q := by
  induction h with
  | changed => exact ⟨0, 1, le_rfl, le_rfl, .target⟩
  | @caller k p e hpre he hconf ih =>
    obtain ⟨hpos, hone⟩ := hpre.bounds
    have hconfPos : (0 : ℚ) < e.confidence := lt_of_lt_of_le (by decide +kernel) hconf
    have hle := g.confidence_le_one e (mem_structuralEdges.mp he).1
    have hshrink : p * e.confidence ≤ p := mul_le_of_le_one_right hpos.le hle
    by_cases hsrc : e.src = changed
    · refine ⟨0, 1, Nat.zero_le _, hshrink.trans hone, ?_⟩
      rw [hsrc]
      exact .target
    · obtain ⟨j, q, hj, hq, hcaller⟩ := ih (hp.trans hshrink)
      have hproduct : p * e.confidence ≤ q * e.confidence :=
        mul_le_mul_of_nonneg_right hq hconfPos.le
      have hfollow : (testWalk g allowedSymbols changed).Follows
          (structuralEdges g.edges allowedSymbols) j e := by
        refine ⟨he, ?_, hconf, admits_storeWalk.mpr hsrc⟩
        rw [edgesAtDepth_storeWalk]
        exact (mem_structuralEdges.mp he).2.1
      refine ⟨j + 1, q * e.confidence, Nat.succ_le_succ hj, hproduct, ?_⟩
      exact .caller e hcaller hfollow
        ⟨mul_pos (hpos.trans_le hq) hconfPos, hp.trans hproduct⟩

lemma reversePath_of_callerPath {keep : ℚ → Prop}
    (h : CallerPath (testWalk g allowedSymbols changed) (structuralEdges g.edges allowedSymbols) keep
      uid k p) : ReversePath g allowedSymbols changed uid k p := by
  induction h with
  | target => exact .changed
  | caller e _ hfollow _ ih => exact .caller ih hfollow.1 hfollow.2.2.1

lemma within_of_boundedPath
    (h : BoundedPath (testWalk g allowedSymbols changed) (structuralEdges g.edges allowedSymbols) uid k
      p) : Within g allowedSymbols changed uid k p := by
  obtain ⟨hk, hle, hpath⟩ := h
  refine ⟨hk, hle, ?_, reversePath_of_callerPath hpath⟩
  cases hpath with
  | target => exact absurd rfl hk
  | caller e _ _ hkeep => exact hkeep.2

lemma Within.exists_boundedPath (h : Within g allowedSymbols changed uid k p) (huid : uid ≠ changed) :
    ∃ j q, j ≤ k ∧ p ≤ q ∧ BoundedPath (testWalk g allowedSymbols changed)
      (structuralEdges g.edges allowedSymbols) uid j q := by
  obtain ⟨-, hle, hp, hpath⟩ := h
  obtain ⟨j, q, hj, hq, hcaller⟩ := hpath.exists_callerPath hp
  refine ⟨j, q, hj, hq, fun hzero => huid ?_, hj.trans hle, hcaller⟩
  subst hzero
  exact (callerPath_zero.mp hcaller).1

/-- The shortest paths have one length, with or without detours. -/
lemma isLeast_within_iff (huid : uid ≠ changed) :
    IsLeast {j | ∃ p, Within g allowedSymbols changed uid j p} k ↔
      IsShortest (testWalk g allowedSymbols changed) (structuralEdges g.edges allowedSymbols) uid
        k := by
  constructor
  · rintro ⟨⟨p, hpath⟩, hleast⟩
    obtain ⟨j, q, hj, -, hbounded⟩ := hpath.exists_boundedPath huid
    obtain rfl : j = k := le_antisymm hj (hleast ⟨q, within_of_boundedPath hbounded⟩)
    exact ⟨⟨q, hbounded⟩, fun i ⟨r, hi⟩ => hleast ⟨r, within_of_boundedPath hi⟩⟩
  · rintro ⟨⟨p, hpath⟩, hleast⟩
    refine ⟨⟨p, within_of_boundedPath hpath⟩, fun i hi => ?_⟩
    obtain ⟨r, hi⟩ := hi
    obtain ⟨j, q, hj, -, hbounded⟩ := hi.exists_boundedPath huid
    exact (hleast ⟨q, hbounded⟩).trans hj

lemma straight_iff : (∀ u, Straight (testWalk g allowedSymbols changed)
      (structuralEdges g.edges allowedSymbols) u) ↔ ShortestAreBest g allowedSymbols changed := by
  constructor
  · intro h uid huid k p hpath
    obtain ⟨j, q, -, hq, hbounded⟩ := hpath.exists_boundedPath huid
    obtain ⟨i, r, hleast, hi, hr⟩ := h uid j q hbounded
    exact ⟨i, r, (isLeast_within_iff huid).mpr hleast, within_of_boundedPath hi, hq.trans hr⟩
  · intro h u k p hpath
    have hu : u ≠ changed := admits_storeWalk.mp (hpath.2.2.admits hpath.1)
    obtain ⟨j, q, hleast, hj, hq⟩ := h u hu k p (within_of_boundedPath hpath)
    obtain ⟨i, r, hi, hr, hbounded⟩ := hj.exists_boundedPath hu
    obtain rfl : i = j := le_antisymm hi (hleast.2 ⟨r, within_of_boundedPath hbounded⟩)
    exact ⟨i, r, (isLeast_within_iff hu).mp hleast, hbounded, hq.trans hr⟩

end Paths

/-! ## The best selection of each symbol -/

section Best

lemma symbolUid_better {candidate existing : AffectedTestSymbol}
    (h : existing.symbolUid = candidate.symbolUid) :
    (better candidate existing).symbolUid = candidate.symbolUid := by
  rw [better]
  split_ifs
  · exact h
  · rfl

/-- The best of several selections is one of them, and as shallow as any. -/
lemma foldl_better (selections : List AffectedTestSymbol) (first : AffectedTestSymbol) :
    selections.foldl (fun existing candidate => better candidate existing) first ∈
        first :: selections ∧
      ∀ c ∈ first :: selections,
        (selections.foldl (fun existing candidate => better candidate existing) first).depth ≤
          c.depth := by
  induction selections generalizing first with
  | nil =>
    refine ⟨List.mem_cons_self, fun c hc => ?_⟩
    rw [List.mem_singleton.mp hc]
    exact le_rfl
  | cons s selections ih =>
    obtain ⟨hmem, hleast⟩ := ih (better s first)
    have hbetter : (better s first = first ∨ better s first = s) ∧
        (better s first).depth ≤ first.depth ∧ (better s first).depth ≤ s.depth := by
      rw [better]
      split_ifs with hkeep
      · refine ⟨.inl rfl, le_rfl, ?_⟩
        rcases hkeep with hlt | ⟨heq, -⟩
        · exact hlt.le
        · exact heq.le
      · exact ⟨.inr rfl, not_lt.mp fun hlt => hkeep (.inl hlt), le_rfl⟩
    obtain ⟨hchoice, hfirst, hs⟩ := hbetter
    have hstart := hleast _ List.mem_cons_self
    refine ⟨?_, fun c hc => ?_⟩
    · rcases List.mem_cons.mp hmem with heq | hmem
      · rw [List.foldl_cons, heq]
        rcases hchoice with hchoice | hchoice <;> rw [hchoice]
        · exact List.mem_cons_self
        · exact List.mem_cons_of_mem _ List.mem_cons_self
      · exact List.mem_cons_of_mem _ (List.mem_cons_of_mem _ hmem)
    · rcases List.mem_cons.mp hc with rfl | hc
      · exact hstart.trans hfirst
      · rcases List.mem_cons.mp hc with rfl | hc
        · exact hstart.trans hs
        · exact hleast c (List.mem_cons_of_mem _ hc)

variable {g : Graph} {conv : Conventions} {order : Iteration}
  {allowedSymbols : Option (Finset String)} {repoUid : Option String} {changedFiles : List String}
  {sel c : AffectedTestSymbol}

/-- A selection that is kept is one of those considered, and as shallow as any of its symbol. -/
lemma of_mem_bestTests (h : sel ∈ bestTests g conv order allowedSymbols repoUid changedFiles) :
    sel ∈ candidates g conv order allowedSymbols repoUid changedFiles ∧
      ∀ c ∈ candidates g conv order allowedSymbols repoUid changedFiles,
        c.symbolUid = sel.symbolUid → sel.depth ≤ c.depth := by
  have hgroup : groupEntry id better ((candidates g conv order allowedSymbols repoUid
      changedFiles).filter fun c => c.symbolUid = sel.symbolUid) = some sel :=
    (mem_accumulate (fun _ => rfl) fun _ _ => symbolUid_better).mp h
  cases hfilter : (candidates g conv order allowedSymbols repoUid changedFiles).filter
      fun c => c.symbolUid = sel.symbolUid with
  | nil =>
    rw [hfilter] at hgroup
    cases hgroup
  | cons first rest =>
    rw [hfilter] at hgroup
    have hbest := foldl_better rest first
    rw [show rest.foldl (fun existing candidate => better candidate existing) first = sel from
      Option.some.inj hgroup, ← hfilter] at hbest
    refine ⟨(List.mem_filter.mp hbest.1).1, fun c hc huid => hbest.2 c ?_⟩
    exact List.mem_filter.mpr ⟨hc, decide_eq_true huid⟩

/-- A selection of each symbol considered is kept. -/
lemma exists_bestTests (h : c ∈ candidates g conv order allowedSymbols repoUid changedFiles) :
    ∃ sel ∈ bestTests g conv order allowedSymbols repoUid changedFiles,
      sel.symbolUid = c.symbolUid := by
  have hmem : c.symbolUid ∈
      (bestTests g conv order allowedSymbols repoUid changedFiles).map (·.symbolUid) :=
    (mem_map_key_accumulate (fun _ => rfl) fun _ _ => symbolUid_better).mpr
      (List.mem_map_of_mem h)
  obtain ⟨sel, hsel, huid⟩ := List.mem_map.mp hmem
  exact ⟨sel, hsel, huid⟩

/-! ## Where the selections come from -/

lemma symByUid_eq_some {uid : String} {t : Symbol} : symByUid g allowedSymbols uid = some t ↔
    t ∈ g.symbols ∧ allowedSymbols.all (t.uid ∈ ·) = true ∧ t.uid = uid := by
  rw [symByUid]
  constructor
  · intro h
    obtain ⟨ht, hallowed⟩ := List.mem_filter.mp (List.mem_of_find?_eq_some h)
    exact ⟨ht, hallowed, by simpa using List.find?_some h⟩
  · rintro ⟨ht, hallowed, rfl⟩
    cases hfind : (g.symbols.filter fun s => allowedSymbols.all (s.uid ∈ ·)).find?
        fun s => s.uid = t.uid with
    | none =>
      have hmem : t ∈ g.symbols.filter fun s => allowedSymbols.all (s.uid ∈ ·) :=
        List.mem_filter.mpr ⟨ht, hallowed⟩
      exact absurd (decide_eq_true rfl) (List.find?_eq_none.mp hfind t hmem)
    | some t' =>
      have huid : t'.uid = t.uid := by simpa using List.find?_some hfind
      have ht' := (List.mem_filter.mp (List.mem_of_find?_eq_some hfind)).1
      rw [g.uid_key t' ht' t ht huid]

lemma reachedTest_eq_some {x : Reacher} : reachedTest g conv allowedSymbols x = some c ↔
    ∃ t, symByUid g allowedSymbols x.uid = some t ∧ isTestSymbol conv t = true ∧
      c = ⟨x.uid, t.name, t.filePath, x.depth, x.edgeType.relTableName, x.confidence⟩ := by
  rw [reachedTest]
  cases symByUid g allowedSymbols x.uid with
  | none => simp
  | some t =>
    simp only [Option.some.injEq, exists_eq_left', Option.ite_none_right_eq_some]
    exact and_congr_right fun _ => eq_comm

lemma mem_reachedTests {cs : ChangedSymbolRef} : c ∈ reachedTests g conv order allowedSymbols cs ↔
    ∃ x ∈ reachers cs.uid (buildRevImpactAdjacency g.edges allowedSymbols) maxTestDepth
      minConfidence, reachedTest g conv allowedSymbols x = some c := by
  rw [reachedTests, List.mem_filterMap]
  simp only [Iteration.mem_visit]

lemma mem_candidates : c ∈ candidates g conv order allowedSymbols repoUid changedFiles ↔
    c ∈ changedTests g conv allowedSymbols repoUid changedFiles ∨
      ∃ cs ∈ changedSymbols g conv allowedSymbols repoUid changedFiles,
        c ∈ reachedTests g conv order allowedSymbols cs := by
  rw [candidates, List.mem_append, List.mem_flatMap]

variable (order) in
/-- A changed symbol or owner that is a test is considered at depth one. -/
lemma exists_changedTest {t : Symbol} {cs : ChangedSymbolRef}
    (ht : symByUid g allowedSymbols cs.uid = some t) (htest : isTestSymbol conv t = true)
    (hcs : cs ∈ changedSymbols g conv allowedSymbols repoUid changedFiles ++
      changedOwners g conv allowedSymbols repoUid changedFiles) :
    ∃ c ∈ candidates g conv order allowedSymbols repoUid changedFiles,
      c.symbolUid = cs.uid ∧ c.depth = 1 := by
  refine ⟨_, mem_candidates.mpr (.inl (List.mem_map_of_mem (List.mem_filter.mpr ⟨hcs, ?_⟩))), rfl,
    rfl⟩
  rw [ht, Option.map_some, Option.getD_some, htest]

lemma depth_candidates (h : c ∈ candidates g conv order allowedSymbols repoUid changedFiles) :
    1 ≤ c.depth ∧ c.depth ≤ 3 := by
  rcases mem_candidates.mp h with h | ⟨cs, -, h⟩
  · obtain ⟨cs, -, rfl⟩ := List.mem_map.mp h
    exact ⟨le_rfl, Nat.one_le_ofNat⟩
  · obtain ⟨x, hx, hc⟩ := mem_reachedTests.mp h
    obtain ⟨t, -, -, rfl⟩ := reachedTest_eq_some.mp hc
    obtain ⟨-, hne, hle⟩ := reacher_depth hx
    exact ⟨Nat.one_le_iff_ne_zero.mpr hne, hle⟩

/-- **Selection.** A test that a changed symbol reaches is selected. -/
lemma exists_selected {t : Symbol} {cs : ChangedSymbolRef} {k : ℕ} {p : ℚ}
    (ht : t ∈ g.symbols) (hallowed : allowedSymbols.all (t.uid ∈ ·) = true)
    (htest : isTestSymbol conv t = true)
    (hcs : cs ∈ changedSymbols g conv allowedSymbols repoUid changedFiles)
    (hpath : Within g allowedSymbols cs.uid t.uid k p) :
    ∃ sel ∈ bestTests g conv order allowedSymbols repoUid changedFiles, sel.symbolUid = t.uid := by
  have hsym : symByUid g allowedSymbols t.uid = some t := symByUid_eq_some.mpr ⟨ht, hallowed, rfl⟩
  by_cases hself : t.uid = cs.uid
  · obtain ⟨c, hc, huid, -⟩ := exists_changedTest order (hself ▸ hsym) htest
      (List.mem_append_left _ hcs)
    rw [hself, ← huid]
    exact exists_bestTests hc
  · obtain ⟨j, q, -, -, hbounded⟩ := hpath.exists_boundedPath hself
    obtain ⟨x, hx, hxuid⟩ := exists_reacher hbounded
    have hc := reachedTest_eq_some.mpr ⟨t, hxuid.symm ▸ hsym, htest, rfl⟩
    obtain ⟨sel, hsel, huid⟩ := exists_bestTests
      (mem_candidates.mpr (.inr ⟨cs, hcs, mem_reachedTests.mpr ⟨x, hx, hc⟩⟩))
    exact ⟨sel, hsel, huid.trans hxuid⟩

/-- A changed symbol or owner is selected at depth one or not at all. -/
lemma depth_of_changed {cs : ChangedSymbolRef}
    (h : sel ∈ bestTests g conv order allowedSymbols repoUid changedFiles)
    (hcs : cs ∈ changedSymbols g conv allowedSymbols repoUid changedFiles ++
      changedOwners g conv allowedSymbols repoUid changedFiles) (huid : cs.uid = sel.symbolUid) :
    sel.depth = 1 := by
  obtain ⟨hmem, hleast⟩ := of_mem_bestTests h
  refine le_antisymm ?_ (depth_candidates hmem).1
  rcases mem_candidates.mp hmem with hchanged | ⟨cs', -, hreached⟩
  · obtain ⟨cs', -, rfl⟩ := List.mem_map.mp hchanged
    exact le_rfl
  · -- a test that another changed symbol reaches
    obtain ⟨x, -, hx⟩ := mem_reachedTests.mp hreached
    obtain ⟨t, ht, htest, rfl⟩ := reachedTest_eq_some.mp hx
    obtain ⟨c, hc, hcuid, hdepth⟩ := exists_changedTest order (huid.symm ▸ ht) htest hcs
    exact hdepth ▸ hleast c hc (hcuid.trans huid)

/-- An unchanged test has the least depth at which a walk found it. -/
lemma depth_of_unchanged
    (hbest : ∀ cs ∈ changedSymbols g conv allowedSymbols repoUid changedFiles,
      ShortestAreBest g allowedSymbols cs.uid)
    (h : sel ∈ bestTests g conv order allowedSymbols repoUid changedFiles)
    (hunchanged : ∀ cs ∈ changedSymbols g conv allowedSymbols repoUid changedFiles ++
      changedOwners g conv allowedSymbols repoUid changedFiles, cs.uid ≠ sel.symbolUid) :
    IsLeast {k | ∃ cs ∈ changedSymbols g conv allowedSymbols repoUid changedFiles, ∃ p,
      Within g allowedSymbols cs.uid sel.symbolUid k p} sel.depth := by
  obtain ⟨hmem, hleast⟩ := of_mem_bestTests h
  have hdepths : ∀ cs ∈ changedSymbols g conv allowedSymbols repoUid changedFiles, ∀ x ∈ reachers
      cs.uid (buildRevImpactAdjacency g.edges allowedSymbols) maxTestDepth minConfidence,
      IsShortest (testWalk g allowedSymbols cs.uid) (structuralEdges g.edges allowedSymbols) x.uid
        x.depth := fun cs hcs => reachers_depths_iff.mpr (straight_iff.mpr (hbest cs hcs))
  rcases mem_candidates.mp hmem with hchanged | ⟨cs, hcs, hreached⟩
  · obtain ⟨cs, hcs, rfl⟩ := List.mem_map.mp hchanged
    exact absurd rfl (hunchanged cs (List.mem_filter.mp hcs).1)
  obtain ⟨x, hx, hxsel⟩ := mem_reachedTests.mp hreached
  obtain ⟨t, ht, htest, rfl⟩ := reachedTest_eq_some.mp hxsel
  obtain ⟨⟨p, hpath⟩, -⟩ := hdepths cs hcs x hx
  refine ⟨⟨cs, hcs, p, within_of_boundedPath hpath⟩, ?_⟩
  rintro k ⟨cs', hcs', q, hwithin⟩
  -- the walk from the other changed symbol finds it at least as early
  obtain ⟨j, r, hj, -, hbounded⟩ := hwithin.exists_boundedPath
    (hunchanged cs' (List.mem_append_left _ hcs')).symm
  obtain ⟨y, hy, hyuid⟩ := exists_reacher hbounded
  have hshort := (hdepths cs' hcs' y hy).2 ⟨r, hyuid.symm ▸ hbounded⟩
  have hyt : symByUid g allowedSymbols y.uid = some t := (congrArg _ hyuid).trans ht
  have hc := reachedTest_eq_some.mpr ⟨t, hyt, htest, rfl⟩
  have hle := hleast _
    (mem_candidates.mpr (.inr ⟨cs', hcs', mem_reachedTests.mpr ⟨y, hy, hc⟩⟩)) hyuid
  exact hle.trans (hshort.trans hj)

/-! ## The tiers -/

lemma testFile_addTest (sym : AffectedTestSymbol) (entry : AffectedTestFile) :
    (AffectedTestFile.addTest conv sym entry).testFile = entry.testFile := by
  rw [AffectedTestFile.addTest]
  split_ifs <;> rfl

variable (conv) in
lemma testFile_ofTest (sym : AffectedTestSymbol) :
    (AffectedTestFile.ofTest conv sym).testFile = sym.testFile := testFile_addTest sym _

variable (conv) in
lemma testFile_addTest_of (sym : AffectedTestSymbol) (entry : AffectedTestFile)
    (h : entry.testFile = sym.testFile) :
    (AffectedTestFile.addTest conv sym entry).testFile = sym.testFile :=
  (testFile_addTest sym entry).trans h

lemma disclose_parts (entry : AffectedTestFile) :
    (AffectedTestFile.disclose conv entry).testFile = entry.testFile ∧
      (AffectedTestFile.disclose conv entry).tests = entry.tests := by
  rw [AffectedTestFile.disclose]
  split_ifs
  · exact ⟨rfl, rfl⟩
  · exact ⟨rfl, rfl⟩

variable (conv) in
/-- A file is listed once when it has tests. -/
lemma testFiles_groupByFile (syms : List AffectedTestSymbol) :
    ((groupByFile conv syms).map (·.testFile)).Nodup ∧
      ∀ file, file ∈ (groupByFile conv syms).map (·.testFile) ↔
        ∃ s ∈ syms, s.testFile = file := by
  have hmap : (groupByFile conv syms).map (·.testFile) =
      (accumulate AffectedTestFile.testFile AffectedTestSymbol.testFile (.ofTest conv) (.addTest conv)
        (syms.insertionSort AffectedTestSymbol.Before)).map (·.testFile) := by
    rw [groupByFile, List.map_map]
    exact List.map_congr_left fun entry _ => (disclose_parts entry).1
  rw [hmap]
  refine ⟨nodup_accumulate (testFile_ofTest conv) (testFile_addTest_of conv) _, fun file => ?_⟩
  rw [mem_map_key_accumulate (testFile_ofTest conv) (testFile_addTest_of conv), List.mem_map]
  simp only [List.mem_insertionSort]

/-- The names of the tests that are added are kept. -/
lemma tests_foldl_addTest (syms : List AffectedTestSymbol) (entry : AffectedTestFile) :
    let tests := (syms.foldl (fun e s => AffectedTestFile.addTest conv s e) entry).tests
    entry.tests ⊆ tests ∧
      ∀ s ∈ syms, conv.isModuleOwnerUid s.symbolUid = false → s.name ∈ tests := by
  induction syms generalizing entry with
  | nil => simp
  | cons sym syms ih =>
    obtain ⟨hkeep, hnames⟩ := ih (AffectedTestFile.addTest conv sym entry)
    have hadd : entry.tests ⊆ (AffectedTestFile.addTest conv sym entry).tests ∧
        (conv.isModuleOwnerUid sym.symbolUid = false →
          sym.name ∈ (AffectedTestFile.addTest conv sym entry).tests) := by
      have htests : (AffectedTestFile.addTest conv sym entry).tests =
          if !conv.isModuleOwnerUid sym.symbolUid ∧ sym.name ∉ entry.tests then
            entry.tests ++ [sym.name] else entry.tests := by
        rw [AffectedTestFile.addTest]
        split_ifs <;> rfl
      rw [htests]
      split_ifs with hnew
      · exact ⟨List.subset_append_left _ _, fun _ => List.mem_append_right _ List.mem_cons_self⟩
      · refine ⟨List.Subset.refl _, fun howner => not_not.mp fun hname => hnew ⟨?_, hname⟩⟩
        rw [howner]
        rfl
    refine ⟨List.Subset.trans hadd.1 hkeep, fun s hs howner => ?_⟩
    rcases List.mem_cons.mp hs with rfl | hs
    · exact hkeep (hadd.2 howner)
    · exact hnames s hs howner

variable (conv) in
/-- A test is listed under its file. -/
lemma exists_groupByFile {syms : List AffectedTestSymbol} (hsel : sel ∈ syms) :
    ∃ f ∈ groupByFile conv syms, f.testFile = sel.testFile ∧
      (conv.isModuleOwnerUid sel.symbolUid = false → sel.name ∈ f.tests) := by
  have hmem : sel ∈ (syms.insertionSort AffectedTestSymbol.Before).filter
      fun s => s.testFile = sel.testFile :=
    List.mem_filter.mpr ⟨(List.mem_insertionSort _).mpr hsel, decide_eq_true rfl⟩
  have hfind := find?_accumulate (testFile_ofTest conv) (testFile_addTest_of conv)
    (syms.insertionSort AffectedTestSymbol.Before) sel.testFile
  cases hgroup : (syms.insertionSort AffectedTestSymbol.Before).filter
      fun s => s.testFile = sel.testFile with
  | nil =>
    rw [hgroup] at hmem
    cases hmem
  | cons first rest =>
    rw [hgroup] at hfind hmem
    -- the entry of the file, before it discloses why it was selected
    let empty : AffectedTestFile := ⟨first.testFile, [], first.symbolUid, first.confidence, none⟩
    let entry := (first :: rest).foldl (fun e s => AffectedTestFile.addTest conv s e) empty
    have hentry : (accumulate AffectedTestFile.testFile AffectedTestSymbol.testFile (.ofTest conv)
        (.addTest conv) (syms.insertionSort AffectedTestSymbol.Before)).find?
        (fun e => e.testFile = sel.testFile) = some entry := hfind
    have hfile : entry.testFile = sel.testFile := by simpa using List.find?_some hentry
    refine ⟨_, List.mem_map_of_mem (List.mem_of_find?_eq_some hentry),
      (disclose_parts entry).1.trans hfile, fun howner => ?_⟩
    rw [(disclose_parts entry).2]
    exact (tests_foldl_addTest (first :: rest) empty).2 sel hmem howner

/-- The least depth of the tests of a file. -/
def IsFileDepth (best : List AffectedTestSymbol) (file : String) (depth : ℕ) : Prop :=
  IsLeast {d | ∃ s ∈ best, s.testFile = file ∧ s.depth = d} depth

lemma isFileDepth_iff {best : List AffectedTestSymbol} {file : String} {depth : ℕ} :
    ((leasts ((order.visit best).map fun sym => (sym.testFile, sym.depth))).find?
        fun e => e.1 = file).map Prod.snd = some depth ↔ IsFileDepth best file depth := by
  rw [find?_leasts, IsFileDepth]
  simp only [List.mem_map, Iteration.mem_visit, Prod.mk.injEq]

lemma exists_isFileDepth {best : List AffectedTestSymbol} (h : sel ∈ best) :
    ∃ depth, IsFileDepth best sel.testFile depth := by
  have hsome : {d | ∃ s ∈ best, s.testFile = sel.testFile ∧ s.depth = d}.Nonempty :=
    ⟨sel.depth, sel, h, rfl, rfl⟩
  exact ⟨_, Nat.sInf_mem hsome, fun _ => Nat.sInf_le⟩

lemma IsFileDepth.bounds {file : String} {depth : ℕ} (h : IsFileDepth
    (bestTests g conv order allowedSymbols repoUid changedFiles) file depth) :
    1 ≤ depth ∧ depth ≤ 3 := by
  obtain ⟨s, hs, -, rfl⟩ := h.1
  exact depth_candidates (of_mem_bestTests hs).1

/-- A file with tests is in the tier of the least depth of its tests. -/
lemma mem_tierSyms {depth tier : ℕ}
    (hdepth : IsFileDepth (bestTests g conv order allowedSymbols repoUid changedFiles) sel.testFile
      depth) :
    sel ∈ tierSyms g conv order allowedSymbols repoUid changedFiles tier ↔
      sel ∈ bestTests g conv order allowedSymbols repoUid changedFiles ∧ tier = depth := by
  have hrange := hdepth.bounds
  have htier : tierOf depth = depth := by
    rw [tierOf]
    split_ifs <;> omega
  rw [tierSyms, List.mem_filter, fileDepth, isFileDepth_iff.mpr hdepth, Option.getD_some, htier,
    Iteration.mem_visit, decide_eq_true_eq, eq_comm (a := depth)]

/-- The files of a tier. -/
def AffectedTestsResult.tier (r : AffectedTestsResult) : ℕ → List AffectedTestFile
  | 1 => r.tier1
  | 2 => r.tier2
  | 3 => r.tier3
  | _ => []

lemma tier_eq_nil (r : AffectedTestsResult) {tier : ℕ} (h : ¬(1 ≤ tier ∧ tier ≤ 3)) :
    r.tier tier = [] := by
  rw [AffectedTestsResult.tier]
  · omega
  · omega
  · omega

variable (g conv order allowedSymbols repoUid changedFiles) in
/-- What a tier lists are the files of its tests, and in the first tier test files without symbols whose
tests are in no tier. -/
lemma tier_affectedTestsWithin (tier : ℕ) (htier : 1 ≤ tier ∧ tier ≤ 3) :
    ∃ rest : List AffectedTestFile,
      (affectedTestsWithin g conv order allowedSymbols repoUid changedFiles).tier tier =
        groupByFile conv (tierSyms g conv order allowedSymbols repoUid changedFiles tier) ++ rest ∧
      ∀ f ∈ rest, tier = 1 ∧ f.testFile ∈ changedFiles ∧
        ∀ s ∈ bestTests g conv order allowedSymbols repoUid changedFiles,
          s.testFile ≠ f.testFile := by
  obtain rfl | rfl | rfl : tier = 1 ∨ tier = 2 ∨ tier = 3 := by omega
  · refine ⟨_, rfl, fun f hf => ?_⟩
    obtain ⟨file, hfile, rfl⟩ := List.mem_map.mp hf
    obtain ⟨hfile, hunselected⟩ := List.mem_filter.mp hfile
    refine ⟨rfl, (List.mem_filter.mp hfile).1, ?_⟩
    rintro s hs rfl
    refine of_decide_eq_true hunselected ?_
    obtain ⟨depth, hdepth⟩ := exists_isFileDepth hs
    have hmem := (testFiles_groupByFile conv _).2 s.testFile |>.mpr
      ⟨s, (mem_tierSyms hdepth).mpr ⟨hs, rfl⟩, rfl⟩
    have hrange := hdepth.bounds
    rw [List.map_append, List.map_append, List.mem_append, List.mem_append]
    obtain rfl | rfl | rfl : depth = 1 ∨ depth = 2 ∨ depth = 3 := by omega
    · exact .inl (.inl hmem)
    · exact .inl (.inr hmem)
    · exact .inr hmem
  · exact ⟨[], by simp [AffectedTestsResult.tier, affectedTestsWithin]⟩
  · exact ⟨[], by simp [AffectedTestsResult.tier, affectedTestsWithin]⟩

/-- A file with selected tests is listed once, in the tier of their least depth. -/
lemma count_tier {depth tier : ℕ}
    (hsel : sel ∈ bestTests g conv order allowedSymbols repoUid changedFiles)
    (hdepth : IsFileDepth (bestTests g conv order allowedSymbols repoUid changedFiles) sel.testFile
      depth) :
    (((affectedTestsWithin g conv order allowedSymbols repoUid changedFiles).tier tier).map
      (·.testFile)).count sel.testFile = if tier = depth then 1 else 0 := by
  have hrange := hdepth.bounds
  by_cases htier : 1 ≤ tier ∧ tier ≤ 3
  · obtain ⟨rest, htests, hrest⟩ := tier_affectedTestsWithin g conv order allowedSymbols repoUid
      changedFiles tier htier
    obtain ⟨hnodup, hfiles⟩ := testFiles_groupByFile conv
      (tierSyms g conv order allowedSymbols repoUid changedFiles tier)
    have hnone : (rest.map (·.testFile)).count sel.testFile = 0 := by
      refine List.count_eq_zero.mpr fun hmem => ?_
      obtain ⟨f, hf, hfile⟩ := List.mem_map.mp hmem
      exact (hrest f hf).2.2 sel hsel hfile.symm
    rw [htests, List.map_append, List.count_append, hnone, Nat.add_zero]
    split_ifs with heq
    · exact List.count_eq_one_of_mem hnodup
        ((hfiles _).mpr ⟨sel, (mem_tierSyms hdepth).mpr ⟨hsel, heq⟩, rfl⟩)
    · refine List.count_eq_zero.mpr fun hmem => heq ?_
      obtain ⟨s, hs, hfile⟩ := (hfiles _).mp hmem
      exact ((mem_tierSyms (hfile.symm ▸ hdepth)).mp hs).2
  · have hne : tier ≠ depth := by omega
    rw [tier_eq_nil _ htier, if_neg hne]
    rfl

/-- The depths that the walk from a changed symbol finds are the lengths of the shortest paths exactly
when these have the greatest products. -/
lemma depths_reachers_iff {changed : String} :
    (∀ x ∈ reachers changed (buildRevImpactAdjacency g.edges allowedSymbols) maxTestDepth
        minConfidence, IsLeast {k | ∃ p, Within g allowedSymbols changed x.uid k p} x.depth) ↔
      ShortestAreBest g allowedSymbols changed := by
  rw [← straight_iff, ← reachers_depths_iff]
  refine forall₂_congr fun x hx => ?_
  exact isLeast_within_iff (reacher_depth hx).1

/-- **Affected tests.** Every test that a changed symbol reaches is selected.  A changed one is at depth
one.  The depths that the walks find are the lengths of the shortest paths exactly when these have the
greatest products, and then an unchanged test is at the length of a shortest path from a changed symbol.
A file with selected tests is listed in one tier, that of their least depth, with their names; what else
is listed are changed files, in the first tier. -/
theorem affectedTests_tiers (g : Graph) (conv : Conventions) (order : Iteration)
    (allowedSymbols : Option (Finset String)) (repoUid : Option String) (changedFiles : List String) :
    let changed := changedSymbols g conv allowedSymbols repoUid changedFiles
    let owners := changedOwners g conv allowedSymbols repoUid changedFiles
    let best := bestTests g conv order allowedSymbols repoUid changedFiles
    let r := affectedTestsWithin g conv order allowedSymbols repoUid changedFiles
    (∀ t ∈ g.symbols, (∀ allowed, allowedSymbols = some allowed → t.uid ∈ allowed) →
        isTestSymbol conv t = true →
        (∃ cs ∈ changed, ∃ k p, Within g allowedSymbols cs.uid t.uid k p) →
        ∃ sel ∈ best, sel.symbolUid = t.uid) ∧
      (∀ sel ∈ best, (∃ cs ∈ changed ++ owners, cs.uid = sel.symbolUid) → sel.depth = 1) ∧
      ((∀ cs ∈ changed, ∀ x ∈ reachers cs.uid (buildRevImpactAdjacency g.edges allowedSymbols)
          maxTestDepth minConfidence,
          IsLeast {k | ∃ p, Within g allowedSymbols cs.uid x.uid k p} x.depth) ↔
        ∀ cs ∈ changed, ShortestAreBest g allowedSymbols cs.uid) ∧
      ((∀ cs ∈ changed, ShortestAreBest g allowedSymbols cs.uid) →
        ∀ sel ∈ best, (∀ cs ∈ changed ++ owners, cs.uid ≠ sel.symbolUid) →
          IsLeast {k | ∃ cs ∈ changed, ∃ p, Within g allowedSymbols cs.uid sel.symbolUid k p}
            sel.depth) ∧
      (∀ sel ∈ best, ∃ depth, IsFileDepth best sel.testFile depth ∧
        (∀ tier, ((r.tier tier).map (·.testFile)).count sel.testFile =
          if tier = depth then 1 else 0) ∧
        ∃ f ∈ r.tier depth, f.testFile = sel.testFile ∧
          (conv.isModuleOwnerUid sel.symbolUid = false → sel.name ∈ f.tests)) ∧
      ∀ tier, ∀ f ∈ r.tier tier, (∃ sel ∈ best, sel.testFile = f.testFile) ∨
        tier = 1 ∧ f.testFile ∈ changedFiles := by
  intro changed owners best r
  refine ⟨?_, ?_, ?_, fun h sel hsel hunchanged => depth_of_unchanged h hsel hunchanged, ?_, ?_⟩
  · rintro t ht hallowed htest ⟨cs, hcs, k, p, hpath⟩
    have hall : allowedSymbols.all (t.uid ∈ ·) = true := by
      cases allowedSymbols with
      | none => rfl
      | some allowed => exact decide_eq_true (hallowed allowed rfl)
    exact exists_selected ht hall htest hcs hpath
  · rintro sel hsel ⟨cs, hcs, huid⟩
    exact depth_of_changed hsel hcs huid
  · exact forall₂_congr fun cs _ => depths_reachers_iff
  · intro sel hsel
    obtain ⟨depth, hdepth⟩ := exists_isFileDepth hsel
    refine ⟨depth, hdepth, fun tier => count_tier hsel hdepth, ?_⟩
    obtain ⟨rest, htests, -⟩ :=
      tier_affectedTestsWithin g conv order allowedSymbols repoUid changedFiles depth hdepth.bounds
    obtain ⟨f, hf, hlisted⟩ := exists_groupByFile conv ((mem_tierSyms hdepth).mpr ⟨hsel, rfl⟩)
    exact ⟨f, htests ▸ List.mem_append_left _ hf, hlisted⟩
  · intro tier f hf
    by_cases htier : 1 ≤ tier ∧ tier ≤ 3
    · obtain ⟨rest, htests, hrest⟩ :=
        tier_affectedTestsWithin g conv order allowedSymbols repoUid changedFiles tier htier
      have hf' : f ∈ groupByFile conv
          (tierSyms g conv order allowedSymbols repoUid changedFiles tier) ++ rest := htests ▸ hf
      rcases List.mem_append.mp hf' with hf' | hf'
      · obtain ⟨s, hs, hfile⟩ :=
          ((testFiles_groupByFile conv _).2 f.testFile).mp (List.mem_map_of_mem hf')
        exact .inl ⟨s, (order.mem_visit).mp (List.mem_filter.mp hs).1, hfile⟩
      · exact .inr ⟨(hrest f hf').1, (hrest f hf').2.1⟩
    · rw [tier_eq_nil r htier] at hf
      cases hf

end Best

/-! ## A longer path with a greater product, and a changed test -/

/-- `parse` is called by a test with a low confidence and by `load` with full confidence, and `load` by
the same test and by another one. -/
def shortcut : Graph where
  symbols :=
    [⟨"sym:parse", "parse", .function, "repo:app", "src/parse.rs", 1, 9, none, false, none, .public⟩,
      ⟨"sym:load", "load", .function, "repo:app", "src/load.rs", 1, 9, none, false, none, .public⟩,
      ⟨"sym:parses", "parses", .function, "repo:app", "tests/parse.rs", 1, 9, none, false, none,
        .public⟩,
      ⟨"sym:loads", "loads", .function, "repo:app", "tests/load.rs", 1, 9, none, false, none,
        .public⟩]
  edges := [⟨"sym:parses", "sym:parse", .calls, 3 / 10⟩, ⟨"sym:load", "sym:parse", .calls, 1⟩,
    ⟨"sym:parses", "sym:load", .calls, 1⟩, ⟨"sym:loads", "sym:load", .calls, 1⟩]
  uid_key := by decide +kernel
  confidence_le_one := by decide +kernel

def rustConventions : Conventions where
  isTestFile file := "tests/".toList <+: file.toList
  classifyChangedFile _ := .source
  ownerSuffix := ":module:1"

/-- The test that calls `parse` directly is at depth two, and the changed test is at depth one although
it calls `parse` only through `load`. -/
theorem affectedTests_shortcut :
    let files := ["src/parse.rs", "tests/load.rs"]
    let changed := changedSymbols shortcut rustConventions none none files
    let best := bestTests shortcut rustConventions .inOrder none none files
    (∃ sel ∈ best, sel.symbolUid = "sym:parses" ∧ sel.depth = 2 ∧
        ∃ cs ∈ changed, ∃ p, Within shortcut none cs.uid "sym:parses" 1 p) ∧
      ∃ sel ∈ best, sel.symbolUid = "sym:loads" ∧ sel.depth = 1 ∧
        (∃ cs ∈ changed, ∃ p, Within shortcut none cs.uid "sym:loads" 2 p) ∧
        ∀ cs ∈ changed, ∀ p, ¬Within shortcut none cs.uid "sym:loads" 1 p := by
  intro files changed best
  have hchanged : changed = [⟨"sym:parse", "parse", "src/parse.rs", "repo:app"⟩,
      ⟨"sym:loads", "loads", "tests/load.rs", "repo:app"⟩] := by decide +kernel
  have hparse : reachers "sym:parse" (buildRevImpactAdjacency shortcut.edges none) maxTestDepth
      minConfidence = [⟨"sym:loads", .calls, 1, 2⟩, ⟨"sym:parses", .calls, 1, 2⟩,
        ⟨"sym:load", .calls, 1, 1⟩] := by
    have hrun : runLoop (reacherStep "sym:parse" (buildRevImpactAdjacency shortcut.edges none)
        maxTestDepth minConfidence) 10 (.init "sym:parse") = some [⟨"sym:loads", .calls, 1, 2⟩,
          ⟨"sym:parses", .calls, 1, 2⟩, ⟨"sym:load", .calls, 1, 1⟩] := by decide +kernel
    exact loop_eq_of_runLoop _ _ hrun
  have hloads : reachers "sym:loads" (buildRevImpactAdjacency shortcut.edges none) maxTestDepth
      minConfidence = [] := by
    have hrun : runLoop (reacherStep "sym:loads" (buildRevImpactAdjacency shortcut.edges none)
        maxTestDepth minConfidence) 10 (.init "sym:loads") = some [] := by decide +kernel
    exact loop_eq_of_runLoop _ _ hrun
  have hbest : best = [⟨"sym:loads", "loads", "tests/load.rs", 1, "CHANGED", 1⟩,
      ⟨"sym:parses", "parses", "tests/parse.rs", 2, "CALLS", 1⟩] := by
    change bestTests _ _ _ _ _ _ = _
    rw [bestTests, candidates, show changedSymbols _ _ _ _ _ = _ from hchanged]
    simp only [List.flatMap_cons, List.flatMap_nil, reachedTests, hparse, hloads]
    decide +kernel
  have hdirect : ReversePath shortcut none "sym:parse" "sym:parses" 1 (1 * (3 / 10)) :=
    .caller (e := ⟨"sym:parses", "sym:parse", .calls, 3 / 10⟩) .changed (by decide +kernel)
      (by decide +kernel)
  have hthrough : ReversePath shortcut none "sym:parse" "sym:loads" 2 (1 * 1 * 1) := by
    have hload : ReversePath shortcut none "sym:parse" "sym:load" 1 (1 * 1) :=
      .caller (e := ⟨"sym:load", "sym:parse", .calls, 1⟩) .changed (by decide +kernel)
        (by decide +kernel)
    exact .caller (e := ⟨"sym:loads", "sym:load", .calls, 1⟩) hload (by decide +kernel)
      (by decide +kernel)
  have hcallees : ∀ e ∈ structuralEdges shortcut.edges none, e.src = "sym:loads" →
      e.dst = "sym:load" := by decide +kernel
  rw [hbest, hchanged]
  refine ⟨⟨_, List.mem_cons_of_mem _ List.mem_cons_self, rfl, rfl, _, List.mem_cons_self,
    1 * (3 / 10), ?_⟩, _, List.mem_cons_self, rfl, rfl,
    ⟨_, List.mem_cons_self, 1 * 1 * 1, ?_⟩, ?_⟩
  · exact ⟨one_ne_zero, by decide, by decide +kernel, hdirect⟩
  · exact ⟨two_ne_zero, by decide, by decide +kernel, hthrough⟩
  · rintro cs hcs p ⟨-, -, -, hpath⟩
    have hdst : cs.uid = "sym:load" := by
      generalize huid : "sym:loads" = uid at hpath
      cases hpath with
      | caller h he _ => exact h.eq_of_zero.symm.trans (hcallees _ he huid.symm)
    rcases List.mem_cons.mp hcs with rfl | hcs
    · exact absurd hdst (by decide +kernel)
    · rw [List.mem_singleton.mp hcs] at hdst
      exact absurd hdst (by decide +kernel)

end AffectedTests
end NestWeaver
