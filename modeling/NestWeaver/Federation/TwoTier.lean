import Mathlib.Data.Finset.Card
import NestWeaver.Framework.Json
import NestWeaver.Framework.Strings

/-!
# Two tiers

`crates/nestweaver-federation/src/two_tier.rs`: the impact that the local daemon finds, and beside it the one that
the server finds across the organisation, less the rows of repositories that the local result has
(`assembleTwoTier`).  A repository is told by what its uid says behind the instance.

The counts of the server are made those of the rows that are left (`recomputeFilteredCounts`), but only where rows
are looked at: a local result that names no repository leaves the result of the server alone.

How a character is capitalised is a parameter.
-/

set_option linter.all false

namespace NestWeaver
namespace TwoTier

open Strings

/-! ## The code -/

def repoIdentityKey (repoUid : String) : String :=
  ((((stripPrefix "repo:".toList repoUid.toList).bind (splitOnce [':'])).map Prod.snd).filter (· ≠ [])).elim
    repoUid String.ofList

/-- The rows of a field, if it is an array. -/
def rowsOf (v : Json) (field : String) : Option (List Json) := (v.get field).bind Json.asArr

def textOf (v : Json) (field : String) : Option String := (v.get field).bind Json.asStr

/-- The uid of the repository of a row, unless it is empty. -/
def repoUidOf (row : Json) : Option String := (textOf row "repo_uid").filter (· ≠ "")

/-- What a local row is known by. -/
def localKey (row : Json) : Option String :=
  match repoUidOf row with
  | some repo => some (repoIdentityKey repo)
  | none => textOf row "file_path"

def extractLocalRepos (localResult : Json) : Finset String :=
  (["changed_symbols", "affected_symbols"].flatMap fun key =>
    ((rowsOf localResult key).getD []).filterMap localKey).toFinset

/-- The row is not one of a local repository. -/
def isKept (localRepos : Finset String) (row : Json) : Bool :=
  !(repoUidOf row).any fun repo => repoIdentityKey repo ∈ localRepos

def retainRows (localRepos : Finset String) (key : String) (v : Json) : Json :=
  match rowsOf v key with
  | some items => v.set key (.arr (items.filter (isKept localRepos)))
  | none => v

/-- Only a field that is present is rewritten. -/
def setPresent (key : String) (u v : Json) : Json := if (v.get key).isSome then v.set key u else v

def setCount (count : Option ℕ) (key : String) (v : Json) : Json :=
  match count with
  | some n => setPresent key (.num (.int n)) v
  | none => v

section Summary

variable (toUppercase : Char → List Char)

def capitalize (risk : String) : String :=
  match risk.toList with
  | [] => ""
  | first :: chars => String.ofList (toUppercase first ++ chars)

/-- The summary, if all that it says can be counted. -/
def renderSummary (changed changedFiles affected clusters : Option ℕ) (v : Json) : Option String :=
  match v.get "summary", changed, changedFiles, affected, clusters with
  | some (.str _), some c, some f, some a, some cl =>
    let risk := ((textOf v "risk").map (capitalize toUppercase)).getD "Unknown"
    let s := toString c ++ " changed symbol(s) in " ++ toString f ++ " file(s), " ++ toString a ++
      " transitively affected symbol(s), " ++ toString cl ++ " cluster(s) touched. Risk: " ++ risk ++ "."
    match (textOf v "status").filter (· ≠ "complete") with
    | some status => some (s ++ " [status: " ++ status ++ "]")
    | none => some s
  | _, _, _, _, _ => none

def recomputeFilteredCounts (filtered : Json) : Json :=
  let changed := (rowsOf filtered "changed_symbols").map List.length
  let affected := (rowsOf filtered "affected_symbols").map List.length
  let clusters := (rowsOf filtered "affected_clusters").map List.length
  let changedFiles := (rowsOf filtered "changed_symbols").map fun items =>
    (items.filterMap (textOf · "file_path")).toFinset.card
  let v := setCount changed "changed_symbol_count" filtered
  let v := setCount affected "affected_symbol_count" v
  let v := setCount affected "returned_affected_symbol_count" v
  let v := if affected.isSome then setPresent "affected_symbols_truncated" (.bool false) v else v
  let v := setCount clusters "affected_cluster_count" v
  match renderSummary toUppercase changed changedFiles affected clusters v with
  | some s => v.set "summary" (.str s)
  | none => v

def filterOrgResults (server : Json) (localRepos : Finset String) : Json :=
  if localRepos = ∅ then server
  else
    recomputeFilteredCounts toUppercase (retainRows localRepos "affected_clusters"
      (retainRows localRepos "changed_symbols" (retainRows localRepos "affected_symbols" server)))

def isNotFound (value : Json) : Bool := textOf value "status" = some "not_found"

def liftedKeys : List String := ["status", "error", "message", "symbol", "name", "did_you_mean"]

def assembleTwoTier (localResult : Json) (serverResult : Option Json) (serverName : String) : Json :=
  let lifted : List (String × Json) :=
    if isNotFound localResult ∧ serverResult.all isNotFound then
      liftedKeys.filterMap fun key => (localResult.get key).map (key, ·)
    else []
  let orgWideImpact : Json :=
    match serverResult with
    | some server =>
      .obj [("source_server", .str serverName),
        ("results", filterOrgResults toUppercase server (extractLocalRepos localResult))]
    | none =>
      .obj [("source_server", .str serverName), ("status", .str "unavailable"),
        ("note", .str "upstream server query failed — showing local impact only")]
  lifted.foldl (fun response field => response.set field.1 field.2)
    (.obj [("tier", .str "two_tier"), ("local_impact", localResult), ("org_wide_impact", orgWideImpact)])

end Summary

/-! ## What is asked for -/

def rowFields : List String := ["changed_symbols", "affected_symbols", "affected_clusters"]

/-- Each count, with the field of the rows that it counts. -/
def countFields : List (String × String) :=
  [("changed_symbol_count", "changed_symbols"), ("affected_symbol_count", "affected_symbols"),
    ("returned_affected_symbol_count", "affected_symbols"), ("affected_cluster_count", "affected_clusters")]

def rewrittenFields : List String :=
  rowFields ++ countFields.map Prod.fst ++ ["affected_symbols_truncated", "summary"]

/-- A changed or affected symbol of the local result is known by the key. -/
def IsLocal (localResult : Json) (key : String) : Prop :=
  ∃ field ∈ ["changed_symbols", "affected_symbols"], ∃ items, rowsOf localResult field = some items ∧
    ∃ row ∈ items, localKey row = some key

/-- A row of the server is left out if the identity of its repository is that of a local row. -/
def IsHidden (localResult row : Json) : Prop :=
  ∃ repo, repoUidOf row = some repo ∧ IsLocal localResult (repoIdentityKey repo)

open Classical in
/-- The rows that are to be left. -/
noncomputable def remaining (localResult : Json) (items : List Json) : List Json :=
  items.filter fun row => ¬IsHidden localResult row

/-- The result of the server without the rows of local repositories. -/
structure OrgTier (localResult server results : Json) : Prop where
  unchanged : (¬∃ key, IsLocal localResult key) → results = server
  rows : ∀ field ∈ rowFields, rowsOf results field = (rowsOf server field).map (remaining localResult)
  counts : (∃ key, IsLocal localResult key) → ∀ pair ∈ countFields, ∀ items, rowsOf results pair.2 = some items →
    results.get pair.1 = (server.get pair.1).map fun _ => .num (.int items.length)
  uncounted : ∀ pair ∈ countFields, rowsOf server pair.2 = none → results.get pair.1 = server.get pair.1
  others : ∀ field, field ∉ rewrittenFields → results.get field = server.get field

/-! ## Fields -/

variable {toUppercase : Char → List Char} {localRepos : Finset String} {localResult server v u row : Json}
  {key k : String}

lemma get_setPresent : (setPresent key u v).get k = if k = key then (v.get k).map (fun _ => u) else v.get k := by
  rw [setPresent]
  by_cases hk : k = key
  · subst hk
    rw [if_pos rfl]
    cases hget : v.get k with
    | none => rw [Option.isSome_none, if_neg Bool.false_ne_true, hget, Option.map_none]
    | some w =>
      rw [Option.isSome_some, if_pos rfl, Json.get_set_self (Json.isObject_of_get hget), Option.map_some]
  · rw [if_neg hk]
    by_cases hpresent : (v.get key).isSome
    · rw [if_pos hpresent, Json.get_set_ne hk]
    · rw [if_neg hpresent]

lemma get_setCount {count : Option ℕ} : (setCount count key v).get k =
    if k = key then (v.get k).map (fun old => (count.map fun n : ℕ => Json.num (.int n)).getD old) else v.get k := by
  cases count with
  | none => simp [setCount]
  | some n => simp [setCount, get_setPresent]

lemma rowsOf_eq_some {items : List Json} : rowsOf v key = some items ↔ v.get key = some (.arr items) := by
  rw [rowsOf, Option.bind_eq_some_iff]
  constructor
  · rintro ⟨w, hget, harr⟩
    rw [hget, Json.asArr_eq_some.mp harr]
  · intro hget
    exact ⟨_, hget, rfl⟩

lemma get_retainRows_of_ne (h : k ≠ key) : (retainRows localRepos key v).get k = v.get k := by
  rw [retainRows]
  cases rowsOf v key with
  | none => rfl
  | some items => exact Json.get_set_ne h _ _

lemma rowsOf_retainRows :
    rowsOf (retainRows localRepos key v) key = (rowsOf v key).map (·.filter (isKept localRepos)) := by
  rw [retainRows]
  cases hrows : rowsOf v key with
  | none => exact hrows
  | some items =>
    rw [Option.map_some, rowsOf_eq_some]
    exact Json.get_set_self (Json.isObject_of_get (rowsOf_eq_some.mp hrows)) _ _

lemma rowsOf_congr (h : u.get key = v.get key) : rowsOf u key = rowsOf v key := by
  rw [rowsOf, rowsOf, h]

/-! ## Counts -/

/-- A count is that of the rows, if it is there and they are; the rows and the other fields are as they were. -/
lemma get_recomputeFilteredCounts (hk : k ≠ "summary") (htruncated : k ≠ "affected_symbols_truncated") :
    (recomputeFilteredCounts toUppercase v).get k =
      match countFields.lookup k with
      | some field =>
        (v.get k).map fun old => ((rowsOf v field).map fun items => Json.num (.int items.length)).getD old
      | none => v.get k := by
  have hsummary : ∀ (s : Option String) (w : Json), Json.get (match s with
      | some s => w.set "summary" (.str s)
      | none => w) k = w.get k := by
    intro s w
    cases s with
    | none => rfl
    | some s => exact Json.get_set_ne hk _ _
  have hflag : ∀ (p : Bool) (w : Json), (if p then setPresent "affected_symbols_truncated" (.bool false) w
      else w).get k = w.get k := by
    intro p w
    cases p with
    | false => rfl
    | true => exact get_setPresent.trans (if_neg htruncated)
  have hcount : ∀ o : Option (List Json), ((o.map List.length).map fun n : ℕ => Json.num (.int n)) =
      o.map fun items => Json.num (.int items.length) := by
    intro o
    rw [Option.map_map]
    rfl
  rw [recomputeFilteredCounts, hsummary, get_setCount, hflag, get_setCount, get_setCount, get_setCount, hcount,
    hcount, hcount]
  by_cases hchanged : k = "changed_symbol_count"
  · subst hchanged
    rfl
  by_cases haffected : k = "affected_symbol_count"
  · subst haffected
    rfl
  by_cases hreturned : k = "returned_affected_symbol_count"
  · subst hreturned
    rfl
  by_cases hclusters : k = "affected_cluster_count"
  · subst hclusters
    rfl
  rw [if_neg hclusters, if_neg hreturned, if_neg haffected, if_neg hchanged]
  have hlookup : countFields.lookup k = none := by
    rw [List.lookup_eq_none_iff]
    intro pair hpair
    simp only [countFields, List.mem_cons, List.not_mem_nil, or_false] at hpair
    rcases hpair with rfl | rfl | rfl | rfl
    all_goals
      rw [bne_iff_ne]
      assumption
  rw [hlookup]

/-! ## Identities -/

/-- The uids of one repository have one identity, whatever the instance. -/
lemma repoIdentityKey_canonical {instanceId urlHash : List Char} (hinstance : ':' ∉ instanceId)
    (hhash : urlHash ≠ []) :
    repoIdentityKey (String.ofList ("repo:".toList ++ (instanceId ++ ':' :: urlHash))) = String.ofList urlHash := by
  have hstrip : stripPrefix "repo:".toList ("repo:".toList ++ (instanceId ++ ':' :: urlHash)) =
      some (instanceId ++ ':' :: urlHash) := by
    rw [stripPrefix, if_pos (List.prefix_append _ _), List.drop_left]
  have hsplit : splitOnce [':'] (instanceId ++ ':' :: urlHash) = some (instanceId, urlHash) := by
    have happend : splitOnce [':'] (instanceId ++ [':'] ++ urlHash) = some (instanceId, urlHash) :=
      splitOnce_append hinstance
    rwa [List.append_assoc, List.singleton_append] at happend
  have hfilter : (some urlHash).filter (fun urlHash => decide (urlHash ≠ [])) = some urlHash := by
    rw [Option.filter_some, if_pos (decide_eq_true hhash)]
  have hlist : (String.ofList ("repo:".toList ++ (instanceId ++ ':' :: urlHash))).toList =
      "repo:".toList ++ (instanceId ++ ':' :: urlHash) := String.toList_ofList
  rw [repoIdentityKey, hlist, hstrip, Option.bind_some, hsplit, Option.map_some, hfilter]
  rfl

/-! ## Rows -/

lemma mem_extractLocalRepos : key ∈ extractLocalRepos localResult ↔ IsLocal localResult key := by
  rw [extractLocalRepos, List.mem_toFinset, List.mem_flatMap]
  refine exists_congr fun field => and_congr_right fun _ => ?_
  rw [List.mem_filterMap]
  cases hrows : rowsOf localResult field with
  | none =>
    rw [Option.getD_none]
    constructor
    · rintro ⟨row, hrow, -⟩
      exact absurd hrow List.not_mem_nil
    · rintro ⟨items, hitems, -⟩
      cases hitems
  | some items =>
    rw [Option.getD_some]
    constructor
    · intro h
      exact ⟨items, rfl, h⟩
    · rintro ⟨items', hitems, h⟩
      rwa [Option.some.inj hitems]

lemma isKept_iff : isKept (extractLocalRepos localResult) row = true ↔ ¬IsHidden localResult row := by
  rw [isKept, Bool.not_eq_true', ← Bool.not_eq_true, IsHidden, Option.any_eq_true]
  refine not_congr (exists_congr fun repo => and_congr_right fun _ => ?_)
  rw [decide_eq_true_iff, mem_extractLocalRepos]

open Classical in
lemma filter_isKept (items : List Json) :
    items.filter (isKept (extractLocalRepos localResult)) = remaining localResult items := by
  rw [remaining]
  apply List.filter_congr
  intro row _
  rw [Bool.eq_iff_iff, isKept_iff, decide_eq_true_iff]

lemma extractLocalRepos_eq_empty : extractLocalRepos localResult = ∅ ↔ ¬∃ key, IsLocal localResult key := by
  rw [Finset.eq_empty_iff_forall_notMem, not_exists]
  exact forall_congr' fun key => not_congr mem_extractLocalRepos

open Classical in
lemma remaining_of_not_local (h : ¬∃ key, IsLocal localResult key) (items : List Json) :
    remaining localResult items = items := by
  rw [remaining, List.filter_eq_self]
  intro row _
  rw [decide_eq_true_iff]
  rintro ⟨repo, -, hlocal⟩
  exact h ⟨_, hlocal⟩

/-! ## The result of the server -/

variable {field : String} {items : List Json}

/-- What the three filters leave of the result of the server. -/
def retained (localResult server : Json) : Json :=
  retainRows (extractLocalRepos localResult) "affected_clusters"
    (retainRows (extractLocalRepos localResult) "changed_symbols"
      (retainRows (extractLocalRepos localResult) "affected_symbols" server))

lemma get_retained (hk : k ∉ rowFields) : (retained localResult server).get k = server.get k := by
  simp only [rowFields, List.mem_cons, List.not_mem_nil, or_false, not_or] at hk
  rw [retained, get_retainRows_of_ne hk.2.2, get_retainRows_of_ne hk.1, get_retainRows_of_ne hk.2.1]

lemma rowsOf_retained (hfield : field ∈ rowFields) :
    rowsOf (retained localResult server) field = (rowsOf server field).map (remaining localResult) := by
  have hfilter : (fun items : List Json => items.filter (isKept (extractLocalRepos localResult))) =
      remaining localResult := funext filter_isKept
  simp only [rowFields, List.mem_cons, List.not_mem_nil, or_false] at hfield
  rw [retained, ← hfilter]
  rcases hfield with rfl | rfl | rfl
  · rw [rowsOf_congr (get_retainRows_of_ne (by decide)), rowsOf_retainRows,
      rowsOf_congr (get_retainRows_of_ne (by decide))]
  · rw [rowsOf_congr (get_retainRows_of_ne (by decide)), rowsOf_congr (get_retainRows_of_ne (by decide)),
      rowsOf_retainRows]
  · rw [rowsOf_retainRows, rowsOf_congr (get_retainRows_of_ne (by decide)),
      rowsOf_congr (get_retainRows_of_ne (by decide))]

lemma filterOrgResults_of_local (h : ∃ key, IsLocal localResult key) :
    filterOrgResults toUppercase server (extractLocalRepos localResult) =
      recomputeFilteredCounts toUppercase (retained localResult server) := by
  rw [filterOrgResults, if_neg fun hempty => extractLocalRepos_eq_empty.mp hempty h]
  rfl

lemma rowsOf_recomputeFilteredCounts (hfield : field ∈ rowFields) :
    rowsOf (recomputeFilteredCounts toUppercase v) field = rowsOf v field := by
  have hother : field ≠ "summary" ∧ field ≠ "affected_symbols_truncated" ∧ countFields.lookup field = none := by
    simp only [rowFields, List.mem_cons, List.not_mem_nil, or_false] at hfield
    rcases hfield with rfl | rfl | rfl
    all_goals exact ⟨by decide, by decide, rfl⟩
  apply rowsOf_congr
  rw [get_recomputeFilteredCounts hother.1 hother.2.1, hother.2.2]

lemma orgTier_filterOrgResults :
    OrgTier localResult server (filterOrgResults toUppercase server (extractLocalRepos localResult)) := by
  by_cases hlocal : ∃ key, IsLocal localResult key
  · rw [filterOrgResults_of_local hlocal]
    have hrows : ∀ field ∈ rowFields,
        rowsOf (recomputeFilteredCounts toUppercase (retained localResult server)) field =
          (rowsOf server field).map (remaining localResult) :=
      fun field hfield => (rowsOf_recomputeFilteredCounts hfield).trans (rowsOf_retained hfield)
    -- a count is none of the rows, and each has its field
    have hcount : ∀ pair ∈ countFields, pair.1 ≠ "summary" ∧ pair.1 ≠ "affected_symbols_truncated" ∧
        pair.1 ∉ rowFields ∧ pair.2 ∈ rowFields ∧ countFields.lookup pair.1 = some pair.2 := by decide
    refine ⟨fun hnone => absurd hlocal hnone, hrows, fun _ pair hpair items hitems => ?_, fun pair hpair hnone => ?_,
      fun field hfield => ?_⟩
    · obtain ⟨hsummary, hflag, hrow, hcounted, hlookup⟩ := hcount pair hpair
      rw [rowsOf_recomputeFilteredCounts hcounted] at hitems
      rw [get_recomputeFilteredCounts hsummary hflag, hlookup, get_retained hrow]
      dsimp only
      rw [hitems]
      rfl
    · obtain ⟨hsummary, hflag, hrow, hcounted, hlookup⟩ := hcount pair hpair
      rw [get_recomputeFilteredCounts hsummary hflag, hlookup, get_retained hrow]
      dsimp only
      rw [rowsOf_retained hcounted, hnone]
      exact Option.map_id'
    · simp only [rewrittenFields, List.mem_append, not_or] at hfield
      obtain ⟨⟨hrow, hcounted⟩, hlast⟩ := hfield
      have hlookup : countFields.lookup field = none := by
        rw [List.lookup_eq_none_iff]
        intro pair hpair
        rw [bne_iff_ne]
        exact fun heq => hcounted (heq ▸ List.mem_map_of_mem hpair)
      have hsummary : field ≠ "summary" := fun heq => hlast (by simp [heq])
      have hflag : field ≠ "affected_symbols_truncated" := fun heq => hlast (by simp [heq])
      rw [get_recomputeFilteredCounts hsummary hflag, hlookup, get_retained hrow]
  · rw [filterOrgResults, if_pos (extractLocalRepos_eq_empty.mpr hlocal)]
    refine ⟨fun _ => rfl, fun field _ => ?_, fun h => absurd h hlocal, fun _ _ _ => rfl, fun _ _ => rfl⟩
    have hsame : remaining localResult = id := funext (remaining_of_not_local hlocal)
    rw [hsame, Option.map_id, id]

/-- The mark of truncation goes with the counts, even where the server itself has left rows out. -/
lemma get_truncated_filterOrgResults (hlocal : ∃ key, IsLocal localResult key)
    (hrows : rowsOf server "affected_symbols" = some items) :
    (filterOrgResults toUppercase server (extractLocalRepos localResult)).get "affected_symbols_truncated" =
      (server.get "affected_symbols_truncated").map fun _ => .bool false := by
  have haffected : rowsOf (retained localResult server) "affected_symbols" = some (remaining localResult items) := by
    rw [rowsOf_retained (by decide), hrows, Option.map_some]
  have hsummary : ∀ (s : Option String) (w : Json), Json.get (match s with
      | some s => w.set "summary" (.str s)
      | none => w) "affected_symbols_truncated" = w.get "affected_symbols_truncated" := by
    intro s w
    cases s with
    | none => rfl
    | some s => exact Json.get_set_ne (by decide) _ _
  rw [filterOrgResults_of_local hlocal, recomputeFilteredCounts, hsummary, haffected, Option.map_some,
    Option.isSome_some, if_pos rfl, get_setCount, if_neg (by decide), get_setPresent, if_pos rfl, get_setCount,
    if_neg (by decide), get_setCount, if_neg (by decide), get_setCount, if_neg (by decide), get_retained (by decide)]

/-! ## The two tiers -/

lemma get_foldl_set (fields : List (String × Json)) (hk : ∀ f ∈ fields, k ≠ f.1) (v : Json) :
    (fields.foldl (fun response field => response.set field.1 field.2) v).get k = v.get k := by
  induction fields generalizing v with
  | nil => rfl
  | cons f fields ih =>
    obtain ⟨hf, hfields⟩ := List.forall_mem_cons.mp hk
    rw [List.foldl_cons, ih hfields, Json.get_set_ne hf]

/-- What is lifted names no tier. -/
lemma get_assembleTwoTier (hk : k ∉ liftedKeys) (serverResult : Option Json) (serverName : String) :
    (assembleTwoTier toUppercase localResult serverResult serverName).get k =
      Json.get (.obj [("tier", .str "two_tier"), ("local_impact", localResult), ("org_wide_impact",
        match serverResult with
        | some server =>
          .obj [("source_server", .str serverName),
            ("results", filterOrgResults toUppercase server (extractLocalRepos localResult))]
        | none =>
          .obj [("source_server", .str serverName), ("status", .str "unavailable"),
            ("note", .str "upstream server query failed — showing local impact only")])]) k := by
  unfold assembleTwoTier
  apply get_foldl_set
  intro f hf
  split_ifs at hf with hmiss
  · obtain ⟨key, hkey, hvalue⟩ := List.mem_filterMap.mp hf
    obtain ⟨value, -, rfl⟩ := Option.map_eq_some_iff.mp hvalue
    exact fun heq => hk (heq ▸ hkey)
  · exact absurd hf List.not_mem_nil

/-- **The two tiers.**  The local result is there as it was.  The result of the server is there without exactly the
rows whose repository is known by the identity of a local row, in order; unless the local result names none, the
counts are those of the rows that are left; and the fields beside these are as they were. -/
theorem assembleTwoTier_orgTier (toUppercase : Char → List Char) (localResult server : Json) (serverName : String) :
    (assembleTwoTier toUppercase localResult (some server) serverName).get "local_impact" = some localResult ∧
    ∃ results, (assembleTwoTier toUppercase localResult (some server) serverName).get "org_wide_impact" =
        some (.obj [("source_server", .str serverName), ("results", results)]) ∧
      OrgTier localResult server results := by
  refine ⟨?_, filterOrgResults toUppercase server (extractLocalRepos localResult), ?_, orgTier_filterOrgResults⟩
  · rw [get_assembleTwoTier (by decide)]
    rfl
  · rw [get_assembleTwoTier (by decide)]
    rfl

/-- What the org tier has of the server. -/
def orgResults (response : Json) : Option Json := (response.get "org_wide_impact").bind (·.get "results")

def rowOf (repoUid : String) : Json := .obj [("repo_uid", .str repoUid)]

def localOfA : Json := .obj [("changed_symbols", .arr [rowOf "repo:local:a"])]

/-- One of five rows, of a repository that is not local. -/
def truncatedServer : Json :=
  .obj [("affected_symbols", .arr [rowOf "repo:server:b"]), ("affected_symbol_count", .num (.int 5)),
    ("returned_affected_symbol_count", .num (.int 1)), ("affected_symbols_truncated", .bool true)]

/-- A result that was truncated is no longer marked so; and where the local result names no repository, a count is
not that of the rows. -/
theorem assembleTwoTier_truncated :
    (orgResults (assembleTwoTier (fun c => [c.toUpper]) localOfA (some truncatedServer) "org")).bind
        (·.get "affected_symbols_truncated") = some (.bool false) ∧
      truncatedServer.get "affected_symbols_truncated" = some (.bool true) ∧
      (orgResults (assembleTwoTier (fun c => [c.toUpper]) (.obj []) (some truncatedServer) "org")).bind
        (·.get "affected_symbol_count") = some (.num (.int 5)) ∧
      (orgResults (assembleTwoTier (fun c => [c.toUpper]) (.obj []) (some truncatedServer) "org")).bind
        (rowsOf · "affected_symbols") = some [rowOf "repo:server:b"] := by
  refine ⟨?_, ?_, ?_, ?_⟩
  all_goals rfl

end TwoTier
end NestWeaver
