import Mathlib.Algebra.Order.Field.Rat
import Mathlib.Data.List.Infix
import Mathlib.Data.Prod.Lex
import Mathlib.Data.String.Basic
import NestWeaver.Framework.TopK
import NestWeaver.Schema

/-!
# One page of a search by name

`crates/nestweaver-store/src/traverse.rs`: the symbols whose lowercased name contains the query are ranked by
how the name matches, the factor of their path, their kind, their path and their place in the table.  The
best of them are kept in a bounded heap, and all of them are counted up to a cap.

The page is the beginning of all the matches in order (`rankSymbolNamePage_eq`).  Factors are rational
numbers, and how a text is lowercased is a parameter.
-/

set_option linter.all false

namespace NestWeaver
namespace NamePage

/-! ## The code -/

def searchPresentationLimitMax : ℕ := 10000

def usizeMax : ℕ := 18446744073709551615

structure PathDeboostRule where
  pathPrefix : Option String
  suffix : Option String
  factor : ℚ
  deriving DecidableEq, Repr

structure SeedResolutionConfig where
  pathDeboost : List PathDeboostRule
  kindPriority : List String
  deriving DecidableEq, Repr

/-- All symbols with their lowercased names. -/
abbrev SymbolNameCached := List (String × Symbol)

inductive SearchTotalRelation
  | exact | lowerBound
  deriving DecidableEq, Repr

structure SearchTotal where
  value : ℕ
  relation : SearchTotalRelation
  deriving DecidableEq, Repr

structure SymbolSearchPage where
  symbols : List Symbol
  total : SearchTotal
  deriving DecidableEq, Repr

inductive StoreError
  | presentationLimitExceeded (limit max : ℕ)
  deriving DecidableEq, Repr

structure RankedSymbol where
  /-- `3` exact, `2` exact ignoring case, `1` prefix, `0` contains. -/
  tier : ℕ
  adjustedScore : ℚ
  kindRank : ℕ
  filePath : String
  ordinal : ℕ
  symbol : Symbol
  deriving DecidableEq, Repr

/-- What is compared, one after the other: the less, the better. -/
def RankedSymbol.key (r : RankedSymbol) : ℕᵒᵈ ×ₗ ℚᵒᵈ ×ₗ ℕ ×ₗ String ×ₗ ℕ :=
  toLex (OrderDual.toDual r.tier, toLex (OrderDual.toDual r.adjustedScore,
    toLex (r.kindRank, toLex (r.filePath, r.ordinal))))

section Code

variable (toLowercase : String → String)

def PathDeboostRule.matched (rule : PathDeboostRule) (filePath : String) : Bool :=
  match rule.pathPrefix, rule.suffix with
  | some pattern, none => decide (pattern.toList <:+: '/' :: (toLowercase filePath).toList)
  | none, some suffix => decide (suffix.toList <:+ filePath.toList)
  | _, _ => false

def computePathFactor (filePath : String) (rules : List PathDeboostRule) : ℚ :=
  rules.foldl (fun factor rule =>
    if rule.matched toLowercase filePath then factor * rule.factor else factor) 1

def kindRank (kind : SymbolKind) (kindPriority : List String) : ℕ :=
  (kindPriority.findIdx? (· = kind.asStr)).getD usizeMax

/-- The lowercased name contains the needle, and the symbol is not to be left out. -/
def admitted (needle : String) (keep : Symbol → Bool) (entry : String × Symbol) : Bool :=
  decide (needle.toList <:+: entry.1.toList) && !(entry.2.isModuleOwner && entry.1 ≠ needle) &&
    keep entry.2

/-- The tier of a match, and its score. -/
def matchTier (query needle : String) (entry : String × Symbol) : ℕ × ℚ :=
  if entry.2.name = query then (3, 4)
  else if entry.1 = needle then (2, 4)
  else if needle.toList <+: entry.1.toList then (1, 2)
  else (0, 1)

def rankSymbol (query : String) (seedResolution : SeedResolutionConfig) (ordinal : ℕ)
    (entry : String × Symbol) : RankedSymbol :=
  let (tier, baseScore) := matchTier query (toLowercase query) entry
  let pathFactor := computePathFactor toLowercase entry.2.filePath seedResolution.pathDeboost
  { tier
    adjustedScore := baseScore * pathFactor
    kindRank := kindRank entry.2.kind seedResolution.kindPriority
    filePath := entry.2.filePath
    ordinal
    symbol := entry.2 }

/-- The variables of the loop. -/
structure Scan where
  candidates : List RankedSymbol
  counted : ℕ
  countSaturated : Bool

def Scan.count (countCap : ℕ) (scan : Scan) : Scan :=
  if scan.counted < countCap then
    { scan with
      counted := scan.counted + 1
      countSaturated := scan.countSaturated || scan.counted + 1 = countCap }
  else { scan with countSaturated := true }

/-- One entry of the table. -/
def Scan.visit (query : String) (limit : ℕ) (seedResolution : SeedResolutionConfig) (countCap : ℕ)
    (keep : Symbol → Bool) (scan : Scan) (entry : (String × Symbol) × ℕ) : Scan :=
  if admitted (toLowercase query) keep entry.1 then
    let scan := scan.count countCap
    if limit = 0 then scan
    else
      let ranked := rankSymbol toLowercase query seedResolution entry.2 entry.1
      { scan with candidates := TopK.offer RankedSymbol.key limit scan.candidates ranked }
  else scan

def rankSymbolNamePage (entry : SymbolNameCached) (query : String) (limit : ℕ)
    (seedResolution : SeedResolutionConfig) (countCap : ℕ) (keep : Symbol → Bool) :
    Except StoreError SymbolSearchPage :=
  if searchPresentationLimitMax < limit then
    .error (.presentationLimitExceeded limit searchPresentationLimitMax)
  else
    let scan := entry.zipIdx.foldl
      (Scan.visit toLowercase query limit seedResolution countCap keep) ⟨[], 0, false⟩
    .ok
      { symbols := (TopK.ranked RankedSymbol.key scan.candidates).map (·.symbol)
        total := ⟨scan.counted, if scan.countSaturated then .lowerBound else .exact⟩ }

/-! ## All the matches -/

/-- The admitted symbols of the table, in its order. -/
def matching (entry : SymbolNameCached) (query : String) (seedResolution : SeedResolutionConfig)
    (keep : Symbol → Bool) : List RankedSymbol :=
  (entry.zipIdx.filter fun e => admitted (toLowercase query) keep e.1).map fun e =>
    rankSymbol toLowercase query seedResolution e.2 e.1

/-- Better by the tier, the score, the kind, the path and the place in the table. -/
def RankedSymbol.Better (r r' : RankedSymbol) : Prop :=
  r'.tier < r.tier ∨ r.tier = r'.tier ∧
    (r'.adjustedScore < r.adjustedScore ∨ r.adjustedScore = r'.adjustedScore ∧
      (r.kindRank < r'.kindRank ∨ r.kindRank = r'.kindRank ∧
        (r.filePath < r'.filePath ∨ r.filePath = r'.filePath ∧ r.ordinal < r'.ordinal)))

end Code

variable {toLowercase : String → String} {entry : SymbolNameCached} {query : String} {limit countCap : ℕ}
  {seedResolution : SeedResolutionConfig} {keep : Symbol → Bool}

lemma key_lt_iff {r r' : RankedSymbol} : r.key < r'.key ↔ r.Better r' := by
  simp only [RankedSymbol.key, RankedSymbol.Better, Prod.Lex.toLex_lt_toLex, OrderDual.toDual_lt_toDual,
    OrderDual.toDual_inj]

lemma tier_le_of_key_le {r r' : RankedSymbol} (h : r.key ≤ r'.key) : r'.tier ≤ r.tier := by
  obtain h | h := h.lt_or_eq
  · obtain h | ⟨h, -⟩ := key_lt_iff.mp h
    · exact h.le
    · exact h.ge
  · simp only [RankedSymbol.key, toLex_inj, Prod.mk.injEq, OrderDual.toDual_inj] at h
    exact h.1.ge

/-- The place in the table tells the matches apart. -/
lemma nodup_key_matching : ((matching toLowercase entry query seedResolution keep).map RankedSymbol.key).Nodup := by
  have hordinal : ((matching toLowercase entry query seedResolution keep).map (·.ordinal)).Nodup := by
    have hmap : (matching toLowercase entry query seedResolution keep).map (·.ordinal) =
        (entry.zipIdx.filter fun e => admitted (toLowercase query) keep e.1).map Prod.snd := by
      rw [matching, List.map_map]
      rfl
    rw [hmap]
    refine List.Nodup.sublist (List.filter_sublist.map _) ?_
    rw [List.zipIdx_map_snd]
    exact List.nodup_range' ..
  have hof : (matching toLowercase entry query seedResolution keep).map (·.ordinal) =
      ((matching toLowercase entry query seedResolution keep).map RankedSymbol.key).map
        fun k => (ofLex (ofLex (ofLex (ofLex k).2).2).2).2 := by
    rw [List.map_map]
    rfl
  rw [hof] at hordinal
  exact hordinal.of_map

/-- What the loop has done after some of the entries. -/
lemma foldl_visit (hlimit : limit ≠ 0) (entries : List ((String × Symbol) × ℕ)) (scan : Scan) :
    (entries.foldl (Scan.visit toLowercase query limit seedResolution countCap keep) scan).candidates =
      ((entries.filter fun e => admitted (toLowercase query) keep e.1).map fun e =>
        rankSymbol toLowercase query seedResolution e.2 e.1).foldl
          (TopK.offer RankedSymbol.key limit) scan.candidates := by
  induction entries generalizing scan with
  | nil => rfl
  | cons e entries ih =>
    rw [List.foldl_cons, ih]
    by_cases he : admitted (toLowercase query) keep e.1
    · rw [List.filter_cons, if_pos he, List.map_cons, List.foldl_cons, Scan.visit, if_pos he]
      simp only [if_neg hlimit]
      rw [Scan.count]
      split_ifs <;> rfl
    · rw [List.filter_cons, if_neg he, Scan.visit, if_neg he]

lemma foldl_visit_zero (entries : List ((String × Symbol) × ℕ)) (scan : Scan) :
    (entries.foldl (Scan.visit toLowercase query 0 seedResolution countCap keep) scan).candidates =
      scan.candidates := by
  induction entries generalizing scan with
  | nil => rfl
  | cons e entries ih =>
    rw [List.foldl_cons, ih, Scan.visit]
    split_ifs with he hzero
    · rw [Scan.count]
      split_ifs <;> rfl
    · exact absurd rfl hzero
    · rfl

/-- The matches are counted up to the cap. -/
structure Scan.Counts (countCap : ℕ) (scan : Scan) (n : ℕ) : Prop where
  counted : scan.counted = min n countCap
  saturated : scan.countSaturated = true ↔ countCap ≤ n ∧ n ≠ 0

lemma Scan.Counts.visit {scan : Scan} {n : ℕ} (h : scan.Counts countCap n) (e : (String × Symbol) × ℕ) :
    (scan.visit toLowercase query limit seedResolution countCap keep e).Counts countCap
      (n + if admitted (toLowercase query) keep e.1 then 1 else 0) := by
  have hcounted := h.counted
  rw [Scan.visit]
  by_cases he : admitted (toLowercase query) keep e.1
  · have hcount : (scan.count countCap).Counts countCap (n + 1) := by
      rw [Scan.count]
      by_cases hlt : scan.counted < countCap
      · rw [if_pos hlt]
        refine ⟨by simp only []; omega, ?_⟩
        have hnot : scan.countSaturated = false := by
          rw [← Bool.not_eq_true, h.saturated]
          omega
        simp only [hnot, Bool.false_or, decide_eq_true_eq]
        omega
      · rw [if_neg hlt]
        refine ⟨by simp only []; omega, ?_⟩
        simp only [true_iff]
        omega
    rw [if_pos he, if_pos he]
    split_ifs
    · exact hcount
    · exact ⟨hcount.counted, hcount.saturated⟩
  · rw [if_neg he, if_neg he]
    exact h

lemma counts_foldl (entries : List ((String × Symbol) × ℕ)) {scan : Scan} {n : ℕ}
    (h : scan.Counts countCap n) :
    (entries.foldl (Scan.visit toLowercase query limit seedResolution countCap keep) scan).Counts countCap
      (n + (entries.filter fun e => admitted (toLowercase query) keep e.1).length) := by
  induction entries generalizing scan n with
  | nil => exact h
  | cons e entries ih =>
    have hvisit : (scan.visit toLowercase query limit seedResolution countCap keep e).Counts countCap
        (n + if admitted (toLowercase query) keep e.1 then 1 else 0) := h.visit e
    have hrest := ih hvisit
    rw [List.foldl_cons, List.filter_cons]
    split_ifs at hrest ⊢ with he
    · rw [List.length_cons]
      rwa [Nat.add_assoc, Nat.add_comm 1] at hrest
    · exact hrest

/-! ## The main result -/

/-- How many matches there are, if they are fewer than the cap, and else the cap. -/
def totalOf (countCap n : ℕ) : SearchTotal :=
  if n < countCap ∨ n = 0 then ⟨n, .exact⟩ else ⟨countCap, .lowerBound⟩

lemma total_of_counts {scan : Scan} {n : ℕ} (h : scan.Counts countCap n) :
    (⟨scan.counted, if scan.countSaturated then .lowerBound else .exact⟩ : SearchTotal) =
      totalOf countCap n := by
  have hsaturated := h.saturated
  rw [totalOf, h.counted]
  by_cases hless : n < countCap ∨ n = 0
  · have hnot : ¬scan.countSaturated = true := fun hs => by
      have := hsaturated.mp hs
      omega
    rw [if_neg hnot, if_pos hless]
    congr 1
    omega
  · have hyes : scan.countSaturated = true := hsaturated.mpr (by omega)
    rw [if_pos hyes, if_neg hless]
    congr 1
    omega

lemma candidates_foldl (entry : SymbolNameCached) :
    TopK.ranked RankedSymbol.key
      (entry.zipIdx.foldl (Scan.visit toLowercase query limit seedResolution countCap keep)
        ⟨[], 0, false⟩).candidates =
      (TopK.ranked RankedSymbol.key (matching toLowercase entry query seedResolution keep)).take limit := by
  by_cases hlimit : limit = 0
  · rw [hlimit, foldl_visit_zero, List.take_zero]
    rfl
  · rw [foldl_visit hlimit]
    exact TopK.ranked_keepBest nodup_key_matching

/-- **The page is the beginning of all matches in order.**  For every table, query, limit, configuration and
filter: a limit that is not too large gives the first of the matches by tier, score, kind, path and place in
the table, so that no match that is left out is of a higher tier than one on the page; and they are counted
exactly below the cap. -/
theorem rankSymbolNamePage_eq (toLowercase : String → String) (entry : SymbolNameCached) (query : String)
    (limit : ℕ) (seedResolution : SeedResolutionConfig) (countCap : ℕ) (keep : Symbol → Bool) :
    ∃ ranked : List RankedSymbol,
      ranked.Perm (matching toLowercase entry query seedResolution keep) ∧
      ranked.Pairwise RankedSymbol.Better ∧
      rankSymbolNamePage toLowercase entry query limit seedResolution countCap keep =
        (if searchPresentationLimitMax < limit then
          .error (.presentationLimitExceeded limit searchPresentationLimitMax)
        else .ok ⟨(ranked.take limit).map (·.symbol), totalOf countCap ranked.length⟩) ∧
      ∀ r ∈ ranked.take limit, ∀ r' ∈ ranked.drop limit, r'.tier ≤ r.tier := by
  set matches' := matching toLowercase entry query seedResolution keep with hmatches
  have hsorted := TopK.pairwise_ranked RankedSymbol.key matches'
  have hperm := TopK.ranked_perm RankedSymbol.key matches'
  have hnodup : ((TopK.ranked RankedSymbol.key matches').map RankedSymbol.key).Nodup :=
    ((hperm.map _).nodup_iff).mpr nodup_key_matching
  refine ⟨TopK.ranked RankedSymbol.key matches', hperm, ?_, ?_, ?_⟩
  · refine (hsorted.and (List.pairwise_map.mp hnodup)).imp ?_
    rintro r r' ⟨hle, hne⟩
    exact key_lt_iff.mp (lt_of_le_of_ne hle hne)
  · rw [rankSymbolNamePage]
    split_ifs
    · rfl
    · have hstart : Scan.Counts countCap ⟨[], 0, false⟩ 0 := ⟨by simp, by simp⟩
      have hcounts : (entry.zipIdx.foldl
          (Scan.visit toLowercase query limit seedResolution countCap keep) ⟨[], 0, false⟩).Counts
            countCap (0 + (entry.zipIdx.filter fun e => admitted (toLowercase query) keep e.1).length) :=
        counts_foldl entry.zipIdx hstart
      have hlength : (TopK.ranked RankedSymbol.key matches').length =
          0 + (entry.zipIdx.filter fun e => admitted (toLowercase query) keep e.1).length := by
        rw [hperm.length_eq, hmatches, matching, List.length_map, Nat.zero_add]
      simp only [candidates_foldl, total_of_counts hcounts, ← hlength]
      rfl
  · intro r hr r' hr'
    have happend := hsorted
    rw [← List.take_append_drop limit (TopK.ranked RankedSymbol.key matches'), List.pairwise_append] at happend
    exact tier_le_of_key_le (happend.2.2 r hr r' hr')

/-- **A limit that is too large gives no page.** -/
theorem rankSymbolNamePage_limit :
    ¬∀ (toLowercase : String → String) (entry : SymbolNameCached) (query : String) (limit : ℕ)
      (seedResolution : SeedResolutionConfig) (countCap : ℕ) (keep : Symbol → Bool),
      ∃ page, rankSymbolNamePage toLowercase entry query limit seedResolution countCap keep =
        .ok page := by
  intro h
  obtain ⟨page, hpage⟩ := h id [] "" 10001 ⟨[], []⟩ 0 fun _ => true
  rw [rankSymbolNamePage, if_pos (by decide)] at hpage
  cases hpage

end NamePage
end NestWeaver
