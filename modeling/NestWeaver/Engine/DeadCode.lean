import Mathlib.Data.Finset.Sort
import Mathlib.Data.Prod.Lex
import Mathlib.Data.String.Basic
import NestWeaver.Framework.FirstSeen
import NestWeaver.Framework.WidestPath
import NestWeaver.Schema

/-!
# Dead code

`detect_dead_code_inner` of `crates/nestweaver-engine/src/dead_code.rs`, in a run that is not
cancelled.  The forward walk from the entry points gives each symbol the largest, over the paths
that reach it, of the least edge confidence on the path; what is not reached with at least one half
is reported, less the local bindings, the configuration twins of reached symbols and the methods of
reported classes and impl blocks.

Confidences and ranks are exact rationals.  The language of a path (for the languages that have an
entry-point model) is a parameter.  The edges from files to their symbols are left out: no edge
leads to a file, so the walk never takes one.
-/

set_option linter.all false

namespace NestWeaver
namespace DeadCode

open WidestPath

/-- Compatibility review tier. -/
inductive DeadCodeConfidence
  | low | medium | high
  deriving DecidableEq, Repr

def DeadCodeConfidence.rank : DeadCodeConfidence → ℕ
  | .low => 0
  | .medium => 1
  | .high => 2

/-- A symbol that was not reached from any entry point. -/
structure UnreachableSymbol where
  uid : String
  name : String
  kind : String
  filePath : String
  visibility : String
  confidence : DeadCodeConfidence
  deriving DecidableEq, Repr

structure DeadCodeScope where
  repos : List String
  totalsPopulation : String
  deriving DecidableEq, Repr

structure DeadCodeResult where
  unreachableSymbols : List UnreachableSymbol
  totalSymbols : ℕ
  reachableSymbols : ℕ
  deadPercentage : ℚ
  excludedCount : ℕ
  undecodableSymbols : ℕ
  entryPoints : ℕ
  moduleOwnerRoots : ℕ
  languagesWithoutEntryPoints : List String
  walkRoots : ℕ
  scope : Option DeadCodeScope
  deriving DecidableEq, Repr

/-- Repo-relative paths a package manifest declares as entry points. -/
structure ManifestInfo where
  entryFiles : List String
  deriving DecidableEq, Repr

/-- The symbols and typed edges of a store, and the number of rows the scan dropped.  A uid is a
primary key. -/
structure Graph where
  symbols : List Symbol
  edges : List TypedEdge
  skippedCorrupt : ℕ
  uid_key : ∀ s ∈ symbols, ∀ t ∈ symbols, s.uid = t.uid → s = t

/-! ## Which symbols are analysed -/

/-- Type-only constructs, properties, modules and declaration files. -/
def isExcludedFromDeadCode (sym : Symbol) : Bool :=
  (sym.kind = .typeAlias ∨ sym.kind = .interface ∨ sym.kind = .property ∨ sym.kind = .module) ∨
    ".d.ts".toList <:+ sym.filePath.toList

def IsBody (sym : Symbol) : Prop := sym.kind = .function ∨ sym.kind = .method

def IsBinding (sym : Symbol) : Prop := sym.kind = .constant ∨ sym.kind = .variable

def IsMemberKind (sym : Symbol) : Prop := sym.kind = .method ∨ sym.kind = .constant

instance (sym : Symbol) : Decidable (IsBody sym) := inferInstanceAs (Decidable (_ ∨ _))
instance (sym : Symbol) : Decidable (IsBinding sym) := inferInstanceAs (Decidable (_ ∨ _))
instance (sym : Symbol) : Decidable (IsMemberKind sym) := inferInstanceAs (Decidable (_ ∨ _))

/-- The span of a body holds that of a symbol, in files of one path. -/
def InBody (body sym : Symbol) : Prop :=
  body.filePath = sym.filePath ∧ body.startLine < sym.startLine ∧ sym.endLine ≤ body.endLine

instance (body sym : Symbol) : Decidable (InBody body sym) :=
  inferInstanceAs (Decidable (_ ∧ _))

/-- UIDs of bindings inside a function or method.  An inverted span is left in the analysis. -/
def functionLocalBindings (symbols : List Symbol) : List String :=
  (symbols.filter fun sym => IsBinding sym ∧ sym.startLine ≤ sym.endLine ∧
    ∃ body ∈ symbols, IsBody body ∧ InBody body sym).map (·.uid)

/-- What the excluded count counts: a module owner is excluded from the report, but is no type-only
or declaration symbol. -/
def countedExcluded (symbols : List Symbol) (sym : Symbol) : Bool :=
  !sym.isModuleOwner && (isExcludedFromDeadCode sym || sym.uid ∈ functionLocalBindings symbols)

/-- The analysed symbols. -/
def Graph.allSymbols (g : Graph) : List Symbol :=
  g.symbols.filter fun sym =>
    !isExcludedFromDeadCode sym && sym.uid ∉ functionLocalBindings g.symbols

/-! ## Members of impl blocks -/

/-- `Iterator::max_by_key`: of the elements with the largest key the last one. -/
def maxByKey {α : Type*} (key : α → ℕ) (xs : List α) : Option α :=
  xs.foldl (fun best x =>
    match best with
    | none => some x
    | some b => if key b ≤ key x then some x else some b) none

section MaxByKey

variable {α : Type*} {key : α → ℕ} {xs : List α} {x y : α}

lemma maxByKey_concat :
    maxByKey key (xs ++ [y]) =
      match maxByKey key xs with
      | none => some y
      | some b => if key b ≤ key y then some y else some b := by
  rw [maxByKey, List.foldl_append]
  rfl

lemma mem_of_maxByKey (h : maxByKey key xs = some x) : x ∈ xs := by
  induction xs using List.reverseRecOn with
  | nil => cases h
  | append_singleton xs y ih =>
    rw [maxByKey_concat] at h
    split at h
    · obtain rfl := Option.some.inj h
      exact List.mem_append_right _ List.mem_cons_self
    · rename_i b hb
      split_ifs at h
      · obtain rfl := Option.some.inj h
        exact List.mem_append_right _ List.mem_cons_self
      · exact List.mem_append_left _ (ih (hb.trans h))

lemma maxByKey_eq_none (h : maxByKey key xs = none) : xs = [] := by
  induction xs using List.reverseRecOn with
  | nil => rfl
  | append_singleton xs y ih =>
    rw [maxByKey_concat] at h
    split at h
    · cases h
    · split_ifs at h

lemma le_of_maxByKey (h : maxByKey key xs = some x) (hy : y ∈ xs) : key y ≤ key x := by
  induction xs using List.reverseRecOn generalizing x with
  | nil => cases hy
  | append_singleton xs z ih =>
    rw [maxByKey_concat] at h
    split at h
    · rename_i hnone
      rw [maxByKey_eq_none hnone, List.nil_append, List.mem_singleton] at hy
      rw [hy, Option.some.inj h]
    · rename_i b hb
      rcases List.mem_append.mp hy with hy | hy
      · have hle := ih hb hy
        split_ifs at h with hbz <;> obtain rfl := Option.some.inj h
        · exact hle.trans hbz
        · exact hle
      · obtain rfl := List.mem_singleton.mp hy
        split_ifs at h with hbz <;> obtain rfl := Option.some.inj h
        · exact le_rfl
        · exact (not_le.mp hbz).le

/-- The choice among all elements is the choice among any of them that it is one of. -/
lemma maxByKey_filter {p : α → Bool} (h : maxByKey key xs = some x) (hx : p x = true) :
    maxByKey key (xs.filter p) = some x := by
  induction xs using List.reverseRecOn generalizing x with
  | nil => cases h
  | append_singleton xs y ih =>
    rw [List.filter_append]
    have hconcat := h
    rw [maxByKey_concat] at hconcat
    split at hconcat
    · rename_i hnone
      obtain rfl := Option.some.inj hconcat
      rw [maxByKey_eq_none hnone, List.filter_cons_of_pos hx]
      rfl
    · rename_i b hb
      split_ifs at hconcat with hby <;> obtain rfl := Option.some.inj hconcat
      · rw [List.filter_cons_of_pos hx, List.filter_nil, maxByKey_concat]
        split
        · rfl
        · rename_i c hc
          have hcb := le_of_maxByKey hb (List.mem_filter.mp (mem_of_maxByKey hc)).1
          rw [if_pos (hcb.trans hby)]
      · by_cases hy : p y = true
        · rw [List.filter_cons_of_pos hy, List.filter_nil, maxByKey_concat, ih hb hx]
          exact if_neg hby
        · rw [List.filter_cons_of_neg hy, List.filter_nil, List.append_nil, ih hb hx]

end MaxByKey

/-- The span of an impl block holds that of a symbol, in files of one path. -/
def InExtension (ext sym : Symbol) : Prop :=
  ext.kind = .extension ∧ ext.filePath = sym.filePath ∧ ext.startLine ≤ sym.startLine ∧
    sym.endLine ≤ ext.endLine

instance (ext sym : Symbol) : Decidable (InExtension ext sym) :=
  inferInstanceAs (Decidable (_ ∧ _))

def innermostExtension (symbols : List Symbol) (sym : Symbol) : Option Symbol :=
  maxByKey Symbol.startLine (symbols.filter fun ext => InExtension ext sym)

/-- UIDs of the methods and constants inside an impl block, the innermost one of each. -/
def extensionMembers (symbols : List Symbol) (ext : String) : List String :=
  (symbols.filter fun sym => IsMemberKind sym ∧ sym.startLine ≤ sym.endLine ∧
    (innermostExtension symbols sym).any (·.uid = ext)).map (·.uid)

/-! ## The walk -/

/-- `WEAK_EDGE_THRESHOLD`. -/
def weakEdgeThreshold : ℚ := 1 / 2

/-- The edges out of a symbol; a `MEMBER_OF` edge is also followed from the class to the member. -/
def adjacency (edges : List TypedEdge) (uid : String) : List (String × ℚ) :=
  edges.flatMap fun e =>
    (if e.src = uid then [(e.dst, e.confidence)] else []) ++
      if e.edgeType = .memberOf ∧ e.dst = uid then [(e.src, e.confidence)] else []

def classMembers (edges : List TypedEdge) (cls : String) : List String :=
  (edges.filter fun e => e.edgeType = .memberOf ∧ e.dst = cls).map (·.src)

lemma mem_adjacency {edges : List TypedEdge} {uid : String} {target : String × ℚ} :
    target ∈ adjacency edges uid ↔ ∃ e ∈ edges, target.2 = e.confidence ∧
      ((e.src = uid ∧ target.1 = e.dst) ∨
        (e.edgeType = .memberOf ∧ e.dst = uid ∧ target.1 = e.src)) := by
  obtain ⟨t, c⟩ := target
  simp only [adjacency, List.mem_flatMap, List.mem_append]
  refine exists_congr fun e => and_congr_right fun _ => ?_
  split_ifs <;> simp_all [and_comm]

/-- The edges the walk follows. -/
def network (edges : List TypedEdge) (minEdgeConfidence : ℚ) : Network String ℚ where
  adjacent uid := (adjacency edges uid).filter fun target => minEdgeConfidence ≤ target.2
  targets := (edges.map (·.dst) ++ edges.map (·.src)).toFinset
  widths := (edges.map (·.confidence)).toFinset
  mem_targets uid target h := by
    obtain ⟨e, he, -, ⟨-, hdst⟩ | ⟨-, -, hsrc⟩⟩ := mem_adjacency.mp (List.mem_filter.mp h).1
    · rw [List.mem_toFinset, hdst]
      exact List.mem_append_left _ (List.mem_map_of_mem he)
    · rw [List.mem_toFinset, hsrc]
      exact List.mem_append_right _ (List.mem_map_of_mem he)
  mem_widths uid target h := by
    obtain ⟨e, he, hconf, -⟩ := mem_adjacency.mp (List.mem_filter.mp h).1
    rw [List.mem_toFinset, hconf]
    exact List.mem_map_of_mem he

/-- `strip_prefix("./")`. -/
def stripDotSlash (path : String) : String :=
  if "./".toList <+: path.toList then String.ofList (path.toList.drop 2) else path

/-- The entry files a repo's own manifest declares. -/
def manifestEntryFiles (manifests : AList fun _ : String => ManifestInfo) (repoUid : String) :
    List String :=
  match manifests.lookup repoUid with
  | some info => info.entryFiles.map stripDotSlash
  | none => []

def isEntry (manifests : AList fun _ : String => ManifestInfo) (sym : Symbol) : Bool :=
  sym.isEntryPoint || stripDotSlash sym.filePath ∈ manifestEntryFiles manifests sym.repoUid

section Detect

variable (g : Graph) (minEdgeConfidence : ℚ) (manifests : AList fun _ : String => ManifestInfo)

/-- The module owners that seed the walk. -/
def Graph.moduleOwners : List Symbol := g.symbols.filter fun s => s.isModuleOwner && s.isEntryPoint

def entryPointUids : List String :=
  (g.allSymbols.filter (isEntry manifests)).map (·.uid) ++ g.moduleOwners.map (·.uid)

/-- The confidence of the best path to each reached symbol, by the edges alone. -/
def walkConf : AList fun _ : String => ℚ :=
  (network g.edges minEdgeConfidence).widest (entryPointUids g manifests) 1

/-- An impl block is reached as well as the best reached of its members. -/
def propagateStep (members : String → List String) (best : AList fun _ : String => ℚ)
    (sym : Symbol) : AList fun _ : String => ℚ :=
  if sym.kind = .extension then
    let bestMemberConf := ((members sym.uid).filterMap best.lookup).foldl max 0
    if 0 < bestMemberConf ∧ widthIn best sym.uid < bestMemberConf then
      best.insert sym.uid bestMemberConf
    else best
  else best

def bestPathConf : AList fun _ : String => ℚ :=
  g.allSymbols.foldl (propagateStep (extensionMembers g.allSymbols))
    (walkConf g minEdgeConfidence manifests)

def strongReachable (uid : String) : Bool :=
  ((bestPathConf g minEdgeConfidence manifests).lookup uid).any (weakEdgeThreshold ≤ ·)

def weakReachable (uid : String) : Bool :=
  ((bestPathConf g minEdgeConfidence manifests).lookup uid).any (· < weakEdgeThreshold)

/-! ## The report -/

def kindByUid (uid : String) : Option SymbolKind :=
  (g.allSymbols.find? fun s => s.uid = uid).map (·.kind)

/-- The classes and impl blocks that are not reached. -/
def unreachableClassUids : List String :=
  (g.allSymbols.filter fun s => !strongReachable g minEdgeConfidence manifests s.uid &&
    (s.kind = .class ∨ s.kind = .extension)).map (·.uid)

/-- Their unreached methods: the class or the block is reported instead. -/
def suppressedMemberUids : List String :=
  ((unreachableClassUids g minEdgeConfidence manifests).flatMap fun cls =>
      classMembers g.edges cls ++ extensionMembers g.allSymbols cls).filter fun uid =>
    kindByUid g uid = some .method && !strongReachable g minEdgeConfidence manifests uid

/-- Path, name and kind of the reached symbols; same-named symbols of one kind in one file are
configuration twins.  Impl blocks of one type share a name, and are no twins. -/
def reachableTwins : List (String × String × SymbolKind) :=
  (g.allSymbols.filter fun s =>
    s.kind ≠ .extension && strongReachable g minEdgeConfidence manifests s.uid).map
    fun s => (s.filePath, s.name, s.kind)

def isTwin (sym : Symbol) : Bool :=
  sym.kind ≠ .extension ∧
    (sym.filePath, sym.name, sym.kind) ∈ reachableTwins g minEdgeConfidence manifests

def visibilityStr : Visibility → String
  | .public => "public"
  | .internal => "internal"
  | .protected => "protected"
  | .private => "private"
  | .inferred => "inferred"

def inferConfidence (visibility : String) : DeadCodeConfidence :=
  if visibility = "public" then .low else .medium

variable (repos : Option (Finset String))

def inScope (repoUid : String) : Bool := repos.all (repoUid ∈ ·)

/-- Whether a symbol gets a row.  The repo filter comes last. -/
def isReported (sym : Symbol) : Bool :=
  !strongReachable g minEdgeConfidence manifests sym.uid &&
    !isTwin g minEdgeConfidence manifests sym &&
    sym.uid ∉ suppressedMemberUids g minEdgeConfidence manifests &&
    inScope repos sym.repoUid

def rankedRow (sym : Symbol) : ℚ × UnreachableSymbol :=
  (sym.pagerankScore.getD 0,
    { uid := sym.uid
      name := sym.name
      kind := sym.kind.asStr
      filePath := sym.filePath
      visibility := visibilityStr sym.visibility
      confidence :=
        if weakReachable g minEdgeConfidence manifests sym.uid then .medium
        else inferConfidence (visibilityStr sym.visibility) })

/-- The sort key of a row: confidence and importance descending, then path, name and uid. -/
def rankedKey (row : ℚ × UnreachableSymbol) : ℕᵒᵈ ×ₗ ℚᵒᵈ ×ₗ String ×ₗ String ×ₗ String :=
  toLex (OrderDual.toDual row.2.confidence.rank, toLex (OrderDual.toDual row.1,
    toLex (row.2.filePath, toLex (row.2.name, row.2.uid))))

def ranked : List (ℚ × UnreachableSymbol) :=
  ((g.allSymbols.filter (isReported g minEdgeConfidence manifests repos)).map
    (rankedRow g minEdgeConfidence manifests)).insertionSort fun a b => rankedKey a ≤ rankedKey b

variable (languageOf : String → Option String)

/-- The languages with analysed symbols and no entry point. -/
def languagesWithoutEntryPoints : List String :=
  let entries := (g.allSymbols.filter (isEntry manifests) ++ g.moduleOwners).filterMap
    fun s => languageOf s.filePath
  ((firstSeen id (g.allSymbols.filterMap fun s => languageOf s.filePath)).filter
    (· ∉ entries)).insertionSort (· ≤ ·)

def detectDeadCodeInner : DeadCodeResult :=
  let excludedCount := (g.symbols.filter (countedExcluded g.symbols)).length
  let scope := repos.map fun r => { repos := r.sort (· ≤ ·), totalsPopulation := "filtered" }
  if g.allSymbols = [] then
    { unreachableSymbols := []
      totalSymbols := 0
      reachableSymbols := 0
      deadPercentage := 0
      excludedCount
      undecodableSymbols := g.skippedCorrupt
      entryPoints := 0
      moduleOwnerRoots := 0
      languagesWithoutEntryPoints := []
      walkRoots := 0
      scope }
  else
    let unreachableSymbols := (ranked g minEdgeConfidence manifests repos).map Prod.snd
    let totalSymbols := (g.allSymbols.filter fun s => inScope repos s.repoUid).length
    { unreachableSymbols
      totalSymbols
      reachableSymbols := totalSymbols - unreachableSymbols.length
      deadPercentage :=
        if totalSymbols > 0 then unreachableSymbols.length / totalSymbols * 100 else 0
      excludedCount
      undecodableSymbols := g.skippedCorrupt
      entryPoints := (g.allSymbols.filter fun s =>
        isEntry manifests s && inScope repos s.repoUid).length
      moduleOwnerRoots := (g.moduleOwners.filter fun s => inScope repos s.repoUid).length
      languagesWithoutEntryPoints := languagesWithoutEntryPoints g manifests languageOf
      walkRoots := (entryPointUids g manifests).length
      scope }

end Detect

end DeadCode
end NestWeaver
