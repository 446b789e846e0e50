import Mathlib.Data.List.Basic
import Mathlib.Data.String.Basic
import NestWeaver.Framework.JsonPath
import NestWeaver.Mcp.Text

/-!
# The output budget

`crates/nestweaver-mcp/src/output_budget.rs`: a tool result that does not fit is reduced by halving
the largest array, or clipping the largest text, of its structured content, until it fits or nothing
is left to cut; then it is refused.

The hash of a long path is a parameter.  A cut that would panic in the code is an error of its own.
-/

set_option linter.all false

namespace NestWeaver
namespace Mcp
namespace OutputBudget

def logicalBytes : ℕ := 20000
def resultBytes : ℕ := 40000

open Json

def u64Max : ℕ := 2 ^ 64 - 1

def saturatingAdd (a b : ℕ) : ℕ := min (a + b) u64Max

/-- `as_u64`. -/
def asU64 : Json → Option ℕ
  | .num (.int n) => if 0 ≤ n ∧ n ≤ u64Max then some n.toNat else none
  | _ => none

def natJson (n : ℕ) : Json := .num (.int n)

def strLen (s : String) : ℕ := byteLen s.toList

/-- The size on the wire, where framing escapes the line separators. -/
def escapedSize (v : Json) : ℕ :=
  byteLen v.text + 3 * v.text.countP fun c => c = '\u2028' ∨ c = '\u2029'

/-! ## What is cut -/

structure Cut where
  path : List Step
  size : ℕ
  array : Bool
  deriving DecidableEq, Repr

/-- Keys whose texts are never clipped. -/
def identity (key : String) : Bool :=
  key = "body_version" || key = "uid" || key.endsWith "_uid" || key.endsWith "_uids" ||
    key = "deduped_ref" || key = "status" || key = "scope" || key = "edge_type" ||
    key = "verdict" || key = "reason" || key = "error" || key = "symbol" || key = "title" ||
    key = "project" || key = "target" || key = "cluster_id" || key = "refused"

def skips (path : List Step) (key : String) (v : Json) : Bool :=
  key = "output_budget" ||
    (key = "sources" && path.any (· = .key "_meta") && escapedSize v ≤ 1024)

/-- The size of a value that can be cut, and whether it is an array. -/
def candidate (key : String) : Json → Option (ℕ × Bool)
  | .arr items => if 1 < items.length then some (escapedSize (.arr items), true) else none
  | .str text => if 128 < strLen text ∧ !identity key then some (strLen text, false) else none
  | _ => none

def offer (path : List Step) (key : String) (v : Json) (best : Option Cut) : Option Cut :=
  match candidate key v with
  | some (size, array) => if best.all fun old => old.size < size then some ⟨path, size, array⟩ else best
  | none => best

mutual

/-- The largest array or text; the first one of that size. -/
def largest (path : List Step) (key : String) (best : Option Cut) : Json → Option Cut
  | .obj fields =>
    if skips path key (.obj fields) then best
    else largestFields path (offer path key (.obj fields) best) [] fields
  | .arr items =>
    if skips path key (.arr items) then best
    else largestItems path key (offer path key (.arr items) best) 0 items
  | v => if skips path key v then best else offer path key v best

/-- A map has each key once: in a list of fields the first one counts. -/
def largestFields (path : List Step) (best : Option Cut) (seen : List String) :
    List (String × Json) → Option Cut
  | [] => best
  | (k, v) :: fields =>
    let best := if k ∈ seen then best else largest (path ++ [Step.key k]) k best v
    largestFields path best (k :: seen) fields

def largestItems (path : List Step) (key : String) (best : Option Cut) (i : ℕ) :
    List Json → Option Cut
  | [] => best
  | v :: items =>
    largestItems path key (largest (path ++ [Step.index i]) key best v) (i + 1) items

end

/-! ## Labels -/

section Labels

variable (hash : String → String)

/-- The label of a path; a long one is cut and ends in its hash. -/
def cutLabel (path : List Step) : String :=
  let label := path.foldl (fun label step => label ++ "/" ++ match step with
    | .key k => k
    | .index i => toString i) ""
  if 128 < strLen label then truncateUtf8Bytes label 108 ++ "#" ++ hash label else label

end Labels

/-- The cuts that were made, by label. -/
abbrev Omitted := List (String × Json)

/-- Insertion in the order of the labels. -/
def Omitted.insert (label : String) (v : Json) : Omitted → Omitted
  | [] => [(label, v)]
  | e :: es =>
    if label = e.1 then (label, v) :: es
    else if label < e.1 then (label, v) :: e :: es
    else e :: Omitted.insert label v es

/-- At most sixteen labels are kept. -/
def Omitted.record (omitted : Omitted) (label : String) (v : Json) : Omitted :=
  if omitted.length < 16 ∨ (omitted.lookup label).isSome then omitted.insert label v else omitted

def Omitted.previous (omitted : Omitted) (label key : String) : ℕ :=
  ((omitted.lookup label).bind fun v => asU64 (v.getD key)).getD 0

def itemsCut (count : ℕ) (paired : Option String) : Json :=
  .obj [("items_omitted", natJson (count % 2 ^ 64)), ("count_kind", .str "exact_completed_array"),
    ("paired_array", paired.elim .null .str)]

/-! ## Cutting an array -/

/-- Arrays that are cut together. -/
def siblings : List (String × String) :=
  [("candidates", "candidate_uids"), ("candidate_uids", "candidates"),
    ("nodes", "impact_nodes"), ("impact_nodes", "nodes"),
    ("broken_links", "low_confidence"), ("low_confidence", "broken_links")]

/-- Counters of an array. -/
def counters : List (String × List String) :=
  [("candidates", ["candidates_returned", "candidate_returned"]),
    ("candidate_uids", ["candidates_returned", "candidate_returned"]),
    ("members", ["returned_members"]),
    ("impact_nodes", ["returned", "count"]), ("nodes", ["returned", "count"]),
    ("results", ["returned", "count"]),
    ("clusters", ["returned"]), ("tags", ["returned"]),
    ("affected_symbols", ["returned_affected_symbol_count"]),
    ("unreachable_symbols", ["returned"]), ("broken_links", ["returned"]),
    ("backlinks", ["count"]),
    ("summaries", ["returned", "count"]), ("hubs", ["returned", "count"]),
    ("bridges", ["returned", "count"]),
    ("connected", ["returned", "connected_count"])]

/-- The offset of an array, and the field for the offset of what follows. -/
def cursors : List (String × String × String) :=
  [("members", "member_offset", "next_member_offset"),
    ("clusters", "cluster_offset", "next_cluster_offset"),
    ("unreachable_symbols", "offset", "next_offset")]

/-- How a reduction can end: in a refusal, or in a panic. -/
inductive Stop
  | refuse
  | panicked
  deriving DecidableEq, Repr

def brokenPair (key : String) : Bool := key = "broken_links" || key = "low_confidence"

def arrLen (v : Json) : ℕ := v.asArr.elim 0 List.length

def halfUp (n : ℕ) : ℕ := (n + 1) / 2

/-- The sibling's window reaches the end of its population. -/
def pairExhausted (parent : Json) (sibling : String) (len : ℕ) : Bool :=
  let total := if sibling = "broken_links" then "total" else "low_confidence_total"
  (asU64 (parent.getD total)).getD u64Max ≤
    saturatingAdd ((asU64 (parent.getD "offset")).getD 0) len

/-- How many items of a broken-links array stay, given its sibling. -/
def sharedKeep (parent : Json) (key : String) : Except Stop (Option ℕ) :=
  if brokenPair key then
    let sibling := if key = "broken_links" then "low_confidence" else "broken_links"
    match (parent.get sibling).bind Json.asArr with
    | none => .ok none
    | some other =>
      let keep := halfUp (arrLen (parent.getD key))
      let exhausted := pairExhausted parent sibling other.length
      -- a cut of the secondary array alone has no cursor
      if key = "low_confidence" ∧ other = [] then .error .refuse
      else
        let keep := if other.length < keep ∧ !exhausted then other.length else keep
        if keep = 0 then .error .refuse else .ok (some keep)
  else .ok none

def truncateItems (n : ℕ) : Json → Json
  | .arr items => .arr (items.take n)
  | v => v

/-- The sibling loses as many items; gives its name and their number. -/
def cutSibling (parent : Json) (key : String) (keep count : ℕ) : Json × Option (String × ℕ) :=
  match siblings.lookup key with
  | none => (parent, none)
  | some sibling =>
    let otherLen := arrLen (parent.getD sibling)
    let exhaustedSmaller :=
      brokenPair key && otherLen ≤ keep && pairExhausted parent sibling otherLen
    match (parent.get sibling).bind Json.asArr with
    | none => (parent, none)
    | some items =>
      if !exhaustedSmaller && (items.length = keep + count || (brokenPair key && keep < items.length))
      then (parent.set sibling (.arr (items.take keep)), some (sibling, items.length - keep))
      else (parent, none)

/-- Setting a field that is there. -/
def setPresent (parent : Json) (key : String) (v : Json) : Json :=
  if (parent.get key).isSome then parent.set key v else parent

def advanceCursor (parent : Json) (key : String) (keep : ℕ) : Json :=
  match cursors.lookup key with
  | none => parent
  | some (offset, next) =>
    if (parent.get next).isSome && (parent.get offset).isSome then
      parent.set next (natJson (saturatingAdd ((asU64 (parent.getD offset)).getD 0) keep))
    else parent

def noteMore (parent : Json) (key : String) : Json :=
  if key = "unreachable_symbols" then setPresent parent "has_more" (.bool true) else parent

def memberNotice : String :=
  "Query this cluster_id with next_member_offset, identical repos/resolution, " ++
    "expected_generation and page_token."

def noteMembers (parent : Json) (key : String) (keep : ℕ) : Json :=
  if key = "members" then
    let parent := parent.set "members_truncated" (.bool true)
    let parent := (asU64 (parent.getD "size")).elim parent fun size =>
      parent.set "members_omitted" (natJson (size - keep))
    parent.set "retry_guidance" (.str memberNotice)
  else parent

def setWhen (c : Prop) [Decidable c] (parent : Json) (key : String) (v : Json) : Json :=
  if c then parent.set key v else parent

/-- The number of broken links, if it was reported. -/
def noteReturned (parent : Json) : Except Stop Json :=
  match parent.get "broken_links", parent.get "returned" with
  | some (.arr items), some _ => .ok (parent.set "returned" (natJson items.length))
  | some _, some _ => .error .panicked
  | _, _ => .ok parent

def noteBroken (parent : Json) (key : String) (paired : Option String) : Except Stop Json :=
  if brokenPair key then
    let parent := setWhen (key = "low_confidence" ∨ paired = some "low_confidence") parent
      "low_confidence_truncated" (.bool true)
    noteReturned (setWhen (key = "broken_links" ∨ paired = some "broken_links") parent
      "truncated" (.bool true))
  else .ok parent

/-- The object around an array that was cut to `keep` items, and the sibling that was cut. -/
def cutField (parent : Json) (key : String) (keep count : ℕ) :
    Except Stop (Json × Option (String × ℕ)) := do
  let (parent, paired) := cutSibling (parent.set key (truncateItems keep (parent.getD key))) key
    keep count
  let parent := advanceCursor parent key keep
  let parent := noteMore parent key
  let parent ← noteBroken (noteMembers parent key keep) key (paired.map Prod.fst)
  let parent := ((counters.lookup key).getD []).foldl
    (fun parent counter => setPresent parent counter (natJson keep)) parent
  return (parent, paired)

/-! ## Clipping a text -/

/-- The place of the same text in the mirrored node list. -/
def mirrorPath : List Step → Json → Option (List Step)
  | [], _ => none
  | .key k :: rest, parent =>
    let sibling :=
      if k = "nodes" then some "impact_nodes"
      else if k = "impact_nodes" then some "nodes"
      else none
    match sibling.filter fun sibling =>
      (parent.getD k).asArr.isSome && (parent.getD k).equal (parent.getD sibling) with
    | some sibling => some (.key sibling :: rest)
    | none => (mirrorPath rest (parent.getD k)).map (.key k :: ·)
  | .index i :: rest, parent => (mirrorPath rest (parent.item i)).map (.index i :: ·)

/-- The body of the parent is a window of a longer text. -/
def bodyWindow (parent : Json) : Bool :=
  (asU64 (parent.getD "body_offset")).isSome &&
    (parent.getD "body_offset_unit").equal (.str "unicode_characters")

def clip (window : Bool) (text : String) : String :=
  let half := max (strLen text / 2) 64
  if window then String.ofList (floorChars (min half (strLen text)) text.toList)
  else truncateUtf8Bytes text half

/-- The object around a text that was clipped. -/
def clipField (parent : Json) (key : String) (clipped : String) : Json :=
  let parent := parent.set key (.str clipped)
  if key = "body" then
    match asU64 (parent.getD "body_offset") with
    | some offset =>
      if bodyWindow parent then
        (parent.set "next_body_offset"
          (natJson ((offset + clipped.toList.length) % 2 ^ 64))).set "body_truncated" (.bool true)
      else parent.set "body_truncated" (.bool true)
    | none => parent.set "body_truncated" (.bool true)
  else parent

def clipAt (path : List Step) (clipped : String) (value : Json) : Json :=
  match path.getLast? with
  | some (.key key) => modifyAt (fun parent => clipField parent key clipped) path.dropLast value
  | _ => modifyAt (fun _ => .str clipped) path value

/-! ## One reduction -/

section Shrink

variable (hash : String → String)

def recordPair (omitted : Omitted) (front : List Step) (key : String) :
    Option (String × ℕ) → Omitted
  | some (sibling, count) =>
    if brokenPair key then
      let label := cutLabel hash (front ++ [Step.key sibling])
      omitted.record label (itemsCut (omitted.previous label "items_omitted" + count) (some key))
    else omitted
  | none => omitted

def shrinkArray (value : Json) (path : List Step) (omitted : Omitted) :
    Except Stop (Json × Omitted) :=
  let label := cutLabel hash path
  let len := arrLen (follow value path)
  match path.getLast? with
  | some (.key key) => do
    let front := path.dropLast
    let parent := follow value front
    let shared ← sharedKeep parent key
    let keep := shared.getD (halfUp len)
    let (parent, paired) ← cutField parent key keep (len - keep)
    let omitted := recordPair hash omitted front key paired
    return (modifyAt (fun _ => parent) front value,
      omitted.record label (itemsCut (omitted.previous label "items_omitted" + (len - keep))
        (paired.map Prod.fst)))
  | _ =>
    let keep := halfUp len
    .ok (modifyAt (truncateItems keep) path value,
      omitted.record label (itemsCut (omitted.previous label "items_omitted" + (len - keep)) none))

def shrinkText (value : Json) (path : List Step) (omitted : Omitted) : Json × Omitted :=
  let label := cutLabel hash path
  let text := ((follow value path).asStr).getD ""
  let mirror := mirrorPath path value
  let window := path.getLast? = some (.key "body") && bodyWindow (follow value path.dropLast)
  let clipped := clip window text
  let value' := clipAt path clipped value
  let value'' :=
    match mirror with
    | some mirror => modifyAt (fun _ => .str clipped) mirror value'
    | none => value'
  (value'', omitted.record label (.obj
    [("bytes_omitted", natJson ((omitted.previous label "bytes_omitted" +
        (strLen text - strLen clipped)) % 2 ^ 64)),
      ("text_truncated", .bool true),
      ("mirrored_alias_path", (mirror.map (cutLabel hash)).elim .null .str)]))

/-- `shrink`; nothing when there is nothing to cut. -/
def shrink (value : Json) (omitted : Omitted) : Except Stop (Option (Json × Omitted)) :=
  match largest [] "" none value with
  | none => .ok none
  | some cut =>
    if cut.array then (shrinkArray hash value cut.path omitted).map some
    else .ok (some (shrinkText hash value cut.path omitted))

end Shrink

/-! ## Disclosure -/

def retryText : String :=
  "Narrow the query, reduce limit, or request a specific UID/section. " ++
    "Output cuts do not describe unvisited graph work."

def budgetNote (omitted : Omitted) (priorComplete : Bool) : Json :=
  .obj [("logical_bytes_limit", natJson logicalBytes),
    ("escaped_result_bytes_limit", natJson resultBytes), ("cuts", .obj omitted),
    ("cuts_complete", .bool (priorComplete && omitted.length < 16)), ("retry", .str retryText)]

def disclose (payload : Json) (omitted : Omitted) (priorComplete : Bool) : Json :=
  (payload.set "truncated" (.bool true)).set "output_budget" (budgetNote omitted priorComplete)

/-- The text of a result is its structured content. -/
def synchronize (result : Json) : Json :=
  match result.get "structuredContent" with
  | some payload =>
    result.set "content" (.arr [.obj [("type", .str "text"), ("text", .str payload.toText)]])
  | none => result

/-! ## Refusal -/

section Refusal

variable (hash : String → String)

mutual

/-- What fits of a value into what is left of a budget. -/
def metadata (budget depth : ℕ) : Json → Json × ℕ
  | .obj fields =>
    if depth > 6 ∨ budget < 8 then (.null, budget)
    else if escapedSize (.obj fields) ≤ min budget 1024 then
      (.obj fields, budget - escapedSize (.obj fields))
    else
      let bounded := metadataFields budget depth fields
      (.obj bounded.1, bounded.2)
  | .arr items =>
    if depth > 6 ∨ budget < 8 then (.null, budget)
    else if escapedSize (.arr items) ≤ min budget 1024 then
      (.arr items, budget - escapedSize (.arr items))
    else
      let bounded := metadataItems budget depth 8 items
      (.arr bounded.1, bounded.2)
  | .str text =>
    if depth > 6 ∨ budget < 8 then (.null, budget)
    else if escapedSize (.str text) ≤ min budget 1024 then
      (.str text, budget - escapedSize (.str text))
    else
      let text := truncateUtf8Bytes text (min (budget / 6) 128)
      (.str text, budget - escapedSize (.str text))
  | v =>
    if depth > 6 ∨ budget < 8 then (.null, budget)
    else if escapedSize v ≤ min budget 1024 then (v, budget - escapedSize v)
    else (v, budget - 8)

def metadataFields (budget depth : ℕ) : List (String × Json) → List (String × Json) × ℕ
  | [] => ([], budget)
  | (key, v) :: fields =>
    if budget < 32 ∨ strLen key > 128 then metadataFields budget depth fields
    else
      let bounded := metadata (budget - (strLen key + 4)) (depth + 1) v
      let rest := metadataFields bounded.2 depth fields
      ((key, bounded.1) :: rest.1, rest.2)

def metadataItems (budget depth : ℕ) : ℕ → List Json → List Json × ℕ
  | 0, _ => ([], budget)
  | _, [] => ([], budget)
  | n + 1, v :: items =>
    let bounded := metadata budget (depth + 1) v
    let rest := metadataItems bounded.2 depth n items
    (bounded.1 :: rest.1, rest.2)

end

def targetKeys : List String :=
  ["uid", "root_uid", "symbol", "title", "project", "project_uid", "cluster_id", "target"]

def assessmentKeys : List String :=
  ["_meta", "coverage", "verdict", "refused", "reason", "deadline_exceeded", "counts_complete",
    "traversal_truncated", "total", "returned", "low_confidence_total", "offset", "unresolved",
    "ambiguous", "graph_generation", "page_token"]

def target (v : Json) : Json :=
  if escapedSize v ≤ 512 then v
  else .obj [("identity_truncated", .bool true), ("serialized_bytes", natJson (escapedSize v)),
    ("hash", .str (hash v.toText))]

def targets (original : Json) : List (String × Json) :=
  targetKeys.filterMap fun key => (original.get key).map fun v => (key, target hash v)

def refusalMessage : String :=
  "Required identity or metadata cannot fit the MCP output budget. Narrow the query or request " ++
    "a specific UID/section; this is not an empty complete answer."

/-- What has been gathered of a refusal. -/
structure RefusalState where
  payload : Json
  assessment : List (String × Json)
  omissions : List Json
  budget : ℕ

def assess (original : Json) (st : RefusalState) (key : String) : RefusalState :=
  match original.get key with
  | none => st
  | some v =>
    let bounded := metadata st.budget 0 v
    { payload := if key = "_meta" ∨ key = "coverage" then st.payload.set key bounded.1 else st.payload
      assessment := if key = "_meta" then st.assessment else st.assessment ++ [(key, bounded.1)]
      omissions :=
        if bounded.1.equal v then st.omissions
        else st.omissions ++ [.obj [("path", .str key),
          ("original_serialized_bytes", natJson (escapedSize v)), ("metadata_truncated", .bool true)]]
      budget := bounded.2 }

/-- Provenance has a budget of its own. -/
def provenance (original : Json) (st : RefusalState) (key : String) : RefusalState :=
  match (original.get "_meta").bind (Json.get · key) with
  | none => st
  | some v =>
    let bounded := (metadata 512 0 v).1
    let payload :=
      if (st.payload.getD "_meta").isObject then st.payload else st.payload.set "_meta" (.obj [])
    { st with
      payload := payload.set "_meta" ((payload.getD "_meta").set key bounded)
      omissions :=
        if bounded.equal v then st.omissions
        else st.omissions ++ [.obj [("path", .str ("_meta/" ++ key)),
          ("metadata_truncated", .bool true)]] }

def refusal (result : Json) : Json :=
  let original := result.getD "structuredContent"
  let status := ((original.get "status").bind Json.asStr).map (truncateUtf8Bytes · 128)
  let payload : Json := .obj [("status", .str "refused"), ("error", .str "output_budget_exceeded"),
    ("original_status", status.elim .null .str), ("targets", .obj (targets hash original)),
    ("truncated", .bool true), ("message", .str refusalMessage), ("refused", .bool true)]
  let st := assessmentKeys.foldl (assess original) ⟨payload, [], [], 3000⟩
  let st := ["scope", "sources"].foldl (provenance original) st
  let payload :=
    if st.assessment = [] then st.payload
    else st.payload.set "original_assessment" (.obj st.assessment)
  let payload :=
    if st.omissions = [] then payload
    else payload.set "metadata_omissions" (.arr st.omissions)
  .obj [("content", .arr [.obj [("type", .str "text"), ("text", .str payload.toText)]]),
    ("structuredContent", payload), ("isError", .bool true)]

/-! ## The finalizer -/

inductive Outcome
  | delivered (result : Json)
  /-- With the result as far as it was reduced. -/
  | refused (result : Json)
  | panicked

/-- A reduction of the structured content, or of the metadata when there is nothing else. -/
def shrinkResult (result : Json) (omitted : Omitted) : Except Stop (Option (Json × Omitted)) := do
  match ← shrink hash (result.getD "structuredContent") omitted with
  | some (content, omitted) => return some (result.set "structuredContent" content, omitted)
  | none =>
    match result.get "_meta" with
    | none => return none
    | some v =>
      match ← shrink hash v omitted with
      | some (v, omitted) => return some (result.set "_meta" v, omitted)
      | none => return none

def finalizeLoop (priorComplete : Bool) : ℕ → Json → Omitted → Outcome
  | 0, result, _ => .refused result
  | n + 1, result, omitted =>
    let fits := escapedSize (result.getD "structuredContent") ≤ logicalBytes
    let result := if fits then synchronize result else result
    if fits ∧ escapedSize result ≤ resultBytes then .delivered result
    else
      match shrinkResult hash result omitted with
      | .error .refuse => .refused result
      | .error .panicked => .panicked
      | .ok none => .refused result
      | .ok (some (result, omitted)) =>
        finalizeLoop priorComplete n (result.set "structuredContent"
          (disclose (result.getD "structuredContent") omitted priorComplete)) omitted

/-- What becomes of a result with structured content. -/
def finalizeStructured (result : Json) : Outcome :=
  let note := (result.getD "structuredContent").getD "output_budget"
  let omitted : Omitted :=
    match note.getD "cuts" with
    | .obj cuts => cuts.foldl (fun omitted e => omitted.insert e.1 e.2) []
    | _ => []
  let priorComplete := match note.getD "cuts_complete" with
    | .bool b => b
    | _ => true
  let content := result.getD "structuredContent"
  if !content.isObject ∧ escapedSize content > logicalBytes then .refused result
  else finalizeLoop hash priorComplete 512 result omitted

/-- Nothing when the finalizer panics. -/
def finalize (result : Json) : Option Json :=
  if (result.get "structuredContent").isSome then
    match finalizeStructured hash result with
    | .delivered result => some result
    | .refused result => some (refusal hash result)
    | .panicked => none
  else if escapedSize result > resultBytes then
    let original := (((((result.getD "content").item 0).getD "text").asStr).getD "")
    let text := truncateUtf8Bytes original 4000
    some (result.set "content" (.arr [.obj [("type", .str "text"),
      ("text", .str (text ++ "\n[Error text truncated from " ++ toString (strLen original) ++
        " bytes; narrow the request and retry.]"))]]))
  else some result

end Refusal

end OutputBudget
end Mcp
end NestWeaver
