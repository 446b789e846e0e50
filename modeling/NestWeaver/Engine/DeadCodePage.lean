import NestWeaver.Engine.DeadCode
import NestWeaver.Framework.Json

/-!
# Pages of dead code

`serialize_dead_code_page` of `crates/nestweaver-engine/src/dead_code.rs`: a page of the review
candidates, bound to its population by a token.

SHA-256 and the text of a floating-point percentage are parameters.
-/

set_option linter.all false

namespace NestWeaver
namespace DeadCode

open Json

def DeadCodeConfidence.json : DeadCodeConfidence → Json
  | .low => .str "low"
  | .medium => .str "medium"
  | .high => .str "high"

def countJson (n : ℕ) : Json := .num (.int n)

def UnreachableSymbol.json (symbol : UnreachableSymbol) : Json :=
  .obj [("uid", .str symbol.uid), ("name", .str symbol.name), ("kind", .str symbol.kind),
    ("file_path", .str symbol.filePath), ("visibility", .str symbol.visibility),
    ("confidence", symbol.confidence.json)]

def UnreachableSymbol.conciseJson (symbol : UnreachableSymbol) : Json :=
  .obj [("uid", .str symbol.uid), ("name", .str symbol.name),
    ("confidence", symbol.confidence.json)]

def DeadCodeScope.json (scope : DeadCodeScope) : Json :=
  .obj [("repos", .arr (scope.repos.map .str)), ("totals_population", .str scope.totalsPopulation)]

/-- Whether the counts are a completeness claim at all. -/
def DeadCodeResult.coverageIsComplete (result : DeadCodeResult) : Bool :=
  result.undecodableSymbols = 0 &&
    (0 < max result.walkRoots (result.entryPoints + result.moduleOwnerRoots) ||
      result.totalSymbols = 0) &&
    result.languagesWithoutEntryPoints = []

/-- A bounded page over one database's review candidate population. -/
structure DeadCodePageRequest where
  minConfidence : DeadCodeConfidence
  limit : ℕ
  offset : ℕ
  expectedGeneration : Option ℕ
  pageToken : Option String
  concise : Bool
  deriving DecidableEq, Repr

def deadCodePageRefusal (reason : String) : Json :=
  .obj [("refused", .bool true), ("reason", .str reason), ("review_only", .bool true),
    ("high_confidence_available", .bool false), ("paging_scope", .str "local_database"),
    ("note", .str ("Review page unavailable. Retry from offset 0 on the same database after " ++
      "indexing completes; retain its generation and page_token for subsequent pages."))]

/-- The rows that a page may show. -/
def DeadCodeResult.matching (result : DeadCodeResult) (minConfidence : DeadCodeConfidence) :
    List UnreachableSymbol :=
  result.unreachableSymbols.filter fun symbol =>
    symbol.confidence ≠ .high ∧ minConfidence.rank ≤ symbol.confidence.rank

/-- The first offset after a page. -/
def DeadCodePageRequest.next (request : DeadCodePageRequest) (matching : ℕ) : ℕ :=
  request.offset + min request.limit (matching - request.offset)

/-- Two lowercase digits for each byte. -/
def hexText (digest : Fin 32 → Fin 256) : String :=
  String.ofList ((List.finRange 32).flatMap fun i =>
    [hexDigit (digest i / 16), hexDigit (digest i % 16)])

section Serialize

variable (percent : ℚ → String) (sha256 : String → Fin 32 → Fin 256)

def DeadCodeResult.json (result : DeadCodeResult) : Json :=
  .obj ([("unreachable_symbols", .arr (result.unreachableSymbols.map UnreachableSymbol.json)),
    ("total_symbols", countJson result.totalSymbols),
    ("reachable_symbols", countJson result.reachableSymbols),
    ("dead_percentage", .num (.float (percent result.deadPercentage))),
    ("excluded_count", countJson result.excludedCount),
    ("undecodable_symbols", countJson result.undecodableSymbols),
    ("entry_points", countJson result.entryPoints),
    ("module_owner_roots", countJson result.moduleOwnerRoots),
    ("languages_without_entry_points", .arr (result.languagesWithoutEntryPoints.map .str)),
    ("walk_roots", countJson result.walkRoots)] ++
    result.scope.toList.map fun scope => ("scope", scope.json))

/-- The token binds the ordered rows, the generation and the database. -/
def pageToken (result : DeadCodeResult) (manifestLoadError : Option String)
    (minConfidence : DeadCodeConfidence) (generation : ℕ) (databaseIdentity : String) : String :=
  let binding : Json := .obj [("version", countJson 1), ("database", .str databaseIdentity),
    ("generation", countJson generation), ("min_confidence", minConfidence.json),
    ("population", result.json percent), ("manifest_load_error", manifestLoadError.elim .null .str)]
  hexText (sha256 binding.toText)

/-- The page of a request that is in range. -/
def pagePayload (result : DeadCodeResult) (manifestLoadError : Option String)
    (request : DeadCodePageRequest) (generation : ℕ) (token : String) : Json :=
  let matching := result.matching request.minConfidence
  let rows := ((matching.drop request.offset).take request.limit).map fun symbol =>
    if request.concise then symbol.conciseJson else symbol.json
  let next := request.next matching.length
  .obj ([("total_symbols", countJson result.totalSymbols),
    ("reachable_symbols", countJson result.reachableSymbols),
    ("unreachable_count", countJson result.unreachableSymbols.length),
    ("matching_count", countJson matching.length),
    ("returned", countJson rows.length), ("truncated", .bool (rows.length < matching.length)),
    ("has_more", .bool (next < matching.length)),
    ("excluded_count", countJson result.excludedCount),
    ("dead_percentage", .num (.float (percent result.deadPercentage))),
    ("coverage", .str (if result.coverageIsComplete && manifestLoadError.isNone then "complete"
      else "degraded")),
    ("undecodable_symbols", countJson result.undecodableSymbols),
    ("entry_points", countJson result.entryPoints),
    ("module_owner_roots", countJson result.moduleOwnerRoots),
    ("walk_roots", countJson result.walkRoots),
    ("languages_without_entry_points", .arr (result.languagesWithoutEntryPoints.map .str)),
    ("min_confidence", request.minConfidence.json),
    ("requested_min_confidence", request.minConfidence.json),
    ("review_only", .bool true), ("high_confidence_available", .bool false),
    ("confidence_filter_status", .str (if request.minConfidence = .high then
      "unavailable_no_validated_population" else "available_review_candidates")),
    ("unreachable_symbols", .arr rows), ("graph_generation", countJson generation),
    ("offset", countJson request.offset), ("limit", countJson request.limit),
    ("next_offset", if next < matching.length then countJson next else .null),
    ("page_token", .str token), ("paging_scope", .str "local_database")] ++
    (result.scope.toList.map fun scope => ("scope", scope.json)) ++
    manifestLoadError.toList.map fun error => ("manifest_load_error", .str error))

/-- `serialize_dead_code_page`: an error, a refusal or a page. -/
def serializeDeadCodePage (result : DeadCodeResult) (manifestLoadError : Option String)
    (request : DeadCodePageRequest) (generation : ℕ) (databaseIdentity : String) :
    Except String Json :=
  if ¬(1 ≤ request.limit ∧ request.limit ≤ 1000) then .error "dead-code limit must be 1..1000"
  else if request.expectedGeneration.any (· ≠ generation) then
    .ok (deadCodePageRefusal "page_generation_changed")
  else if 0 < request.offset ∧ (request.expectedGeneration = none ∨ request.pageToken = none) then
    .ok (deadCodePageRefusal "page_continuation_required")
  else
    let token := pageToken percent sha256 result manifestLoadError request.minConfidence generation
      databaseIdentity
    if request.pageToken.any (· ≠ token) then
      .ok (deadCodePageRefusal "page_population_or_database_changed")
    else if (result.matching request.minConfidence).length < request.offset then
      .ok (deadCodePageRefusal "page_offset_out_of_range")
    else .ok (pagePayload percent result manifestLoadError request generation token)

/-! ## The token -/

def isHexDigit (c : Char) : Bool := ('0' ≤ c && c ≤ '9') || ('a' ≤ c && c ≤ 'f')

/-- `is_well_formed_page_token`; a digit is a byte. -/
def isWellFormedPageToken (token : String) : Bool :=
  token.toList.length = 64 && token.toList.all isHexDigit

lemma isHexDigit_hexDigit {n : ℕ} (hn : n < 16) : isHexDigit (hexDigit n) = true := by
  interval_cases n <;> decide

lemma isWellFormedPageToken_hexText (digest : Fin 32 → Fin 256) :
    isWellFormedPageToken (hexText digest) = true := by
  have hlength : ∀ l : List (Fin 32), (l.flatMap fun i =>
      [hexDigit (digest i / 16), hexDigit (digest i % 16)]).length = 2 * l.length := by
    intro l
    induction l with
    | nil => rfl
    | cons i l ih =>
      rw [List.flatMap_cons, List.length_append, ih, List.length_cons]
      simp only [List.length_cons, List.length_nil]
      omega
  rw [isWellFormedPageToken, hexText, String.toList_ofList, hlength, List.length_finRange,
    Bool.and_eq_true]
  refine ⟨rfl, List.all_eq_true.mpr fun c hc => ?_⟩
  obtain ⟨i, -, hmem⟩ := List.mem_flatMap.mp hc
  have hlt := (digest i).isLt
  rcases List.mem_cons.mp hmem with rfl | hmem
  · exact isHexDigit_hexDigit (by omega)
  · obtain rfl := List.mem_singleton.mp hmem
    exact isHexDigit_hexDigit (by omega)

/-- A token of the database is well formed. -/
lemma isWellFormedPageToken_pageToken (result : DeadCodeResult) (manifestLoadError : Option String)
    (minConfidence : DeadCodeConfidence) (generation : ℕ) (databaseIdentity : String) :
    isWellFormedPageToken (pageToken percent sha256 result manifestLoadError minConfidence generation
      databaseIdentity) = true :=
  isWellFormedPageToken_hexText _

end Serialize

end DeadCode
end NestWeaver
