import Mathlib.Algebra.BigOperators.Group.List.Basic
import Mathlib.Algebra.Order.Field.Rat
import Mathlib.Data.String.Basic
import NestWeaver.Federation.Dedup
import NestWeaver.Framework.Accumulate
import NestWeaver.Framework.StableSort

/-!
# Reciprocal rank fusion

`crates/nestweaver-federation/src/merge.rs`: the results of the local and the server tier become one
list.  A row adds its weight to the entry of its identity; the entries are taken from a hash map in an
order of its own and sorted by score and by a key that is made from the identity.  Scores are exact.

What two passes over the rows make is what the rows accumulate (`fst_scored`), so an entry is known
from the rows of its identity (`groupEntry_eq`).
-/

set_option linter.all false

namespace NestWeaver
namespace Federation

inductive Provenance
  | «local»
  | server
  | both
  deriving DecidableEq, Repr

inductive Confidence
  | precise
  | heuristic
  | stale
  deriving DecidableEq, Repr

structure MergedResult where
  value : Json
  provenance : Provenance
  confidence : Confidence
  score : ℚ

def rrfK : ℚ := 60
def localWeight : ℚ := 3 / 2
def serverWeight : ℚ := 1

def inferConfidence (result : Json) : Confidence :=
  if ((firstField result ["scope_chain", "scope"]).bind Json.asStr).any (· ≠ "") then .precise
  else .heuristic

/-- An identity as a string, its parts with separators between them. -/
def identityTiebreaker (id : SymbolIdentity) : String :=
  (id.entity.map (·.key)).getD "" ++ "\x1f" ++ id.repoUrl ++ "\x1f" ++ id.filePath ++ "\x1f" ++
    id.symbolName ++ "\x1f" ++ toString id.scopeHash

/-- A higher score is first, and of equal ones the smaller key. -/
def Before (a b : String × MergedResult) : Prop :=
  b.2.score < a.2.score ∨ b.2.score = a.2.score ∧ ¬b.1 < a.1

instance : DecidableRel Before := fun _ _ => inferInstanceAs (Decidable (_ ∨ _))

def finalizeOrdering (order : Iteration) (keyed : List (SymbolIdentity × MergedResult))
    (unkeyed : List MergedResult) : List MergedResult :=
  let all := (order.visit keyed).map (fun (id, r) => (identityTiebreaker id, r)) ++
    unkeyed.map fun r => ("\x7f" ++ r.value.toText, r)
  (all.insertionSort Before).map Prod.snd

/-- One local row. -/
def scoreLocal (k weight : ℚ) (st : List (SymbolIdentity × MergedResult) × List MergedResult)
    (row : (Json × Option SymbolIdentity) × ℕ) :
    List (SymbolIdentity × MergedResult) × List MergedResult :=
  let score := weight / (row.2 + k + 1)
  match row.1.2 with
  | some id =>
    (upsert (·.1.parts) id.parts (id, ⟨row.1.1, .«local», inferConfidence row.1.1, score⟩)
      (fun (id, existing) => (id, { existing with score := existing.score + score })) st.1, st.2)
  | none => (st.1, st.2 ++ [⟨row.1.1, .«local», .heuristic, score⟩])

/-- One row of the server. -/
def scoreServer (k : ℚ) (st : List (SymbolIdentity × MergedResult) × List MergedResult)
    (row : (Json × Option SymbolIdentity) × ℕ) :
    List (SymbolIdentity × MergedResult) × List MergedResult :=
  let score := serverWeight / (row.2 + k + 1)
  match row.1.2 with
  | some id =>
    (upsert (·.1.parts) id.parts (id, ⟨row.1.1, .server, inferConfidence row.1.1, score⟩)
      (fun (id, existing) => (id, { existing with
        provenance := if existing.provenance = .«local» then .both else existing.provenance
        score := existing.score + score })) st.1, st.2)
  | none => (st.1, st.2 ++ [⟨row.1.1, .server, .heuristic, score⟩])

section

variable (digest : Option (String ⊕ ℕ) → ℕ)

/-- The sets of vaults and the map of the entries are visited in orders of their own. -/
def rrfMergeWeightedMapped (vaultOrder : ℕ → Iteration) (order : Iteration) (loc server : List Json)
    (k weight : ℚ) (mappings : List (String × String)) : List MergedResult :=
  let (localIds, serverIds, _) :=
    identifyTiersWithVaultMappings digest vaultOrder loc server mappings
  let scored := (loc.zip localIds).zipIdx.foldl (scoreLocal k weight) ([], [])
  let scored := (server.zip serverIds).zipIdx.foldl (scoreServer k) scored
  finalizeOrdering order scored.1 scored.2

def rrfMergeWithVaultMappings (vaultOrder : ℕ → Iteration) (order : Iteration)
    (loc server : List Json) (mappings : List (String × String)) : List MergedResult :=
  rrfMergeWeightedMapped digest vaultOrder order loc server rrfK localWeight mappings

end

/-! ## Identities of the server -/

def SymbolIdentity.moved (accepted : String → Option String) (id : SymbolIdentity) : SymbolIdentity :=
  { id with entity := id.entity.map (·.moved accepted) }

lemma putKeys_map (accepted : String → Option String) (ids : List (Option SymbolIdentity)) :
    putKeys ids ((entityKeys ids).map (·.moved accepted)) =
      ids.map (Option.map (·.moved accepted)) := by
  induction ids with
  | nil => rfl
  | cons id ids ih =>
    cases id with
    | none => simpa [putKeys, entityKeys] using ih
    | some id =>
      cases hentity : id.entity with
      | none =>
        have hid : id.moved accepted = id := by
          rw [SymbolIdentity.moved, hentity, Option.map_none, ← hentity]
        simpa [putKeys, entityKeys, hentity, hid] using ih
      | some key => simpa [putKeys, entityKeys, hentity, SymbolIdentity.moved] using ih

/-! ## The rows -/

/-- The rows of a tier, each as a result of its own. -/
def tierRows (tier : Provenance) (k weight : ℚ) (values : List Json)
    (ids : List (Option SymbolIdentity)) : List (Option SymbolIdentity × MergedResult) :=
  (values.zip ids).zipIdx.map fun ((value, id), rank) =>
    (id, ⟨value, tier, if id.isSome then inferConfidence value else .heuristic,
      weight / (rank + k + 1)⟩)

def keyedRows (rows : List (Option SymbolIdentity × MergedResult)) :
    List (SymbolIdentity × MergedResult) :=
  rows.filterMap fun (id, r) => id.map (·, r)

def unkeyedRows (rows : List (Option SymbolIdentity × MergedResult)) : List MergedResult :=
  (rows.filter (·.1.isNone)).map (·.2)

/-- A row with the entry of its identity. -/
def fuse (row existing : SymbolIdentity × MergedResult) : SymbolIdentity × MergedResult :=
  (existing.1, { existing.2 with
    provenance := if row.2.provenance = .server ∧ existing.2.provenance = .«local» then .both
      else existing.2.provenance
    score := existing.2.score + row.2.score })

/-- The entries that keyed rows accumulate. -/
def entries (rows : List (SymbolIdentity × MergedResult)) : List (SymbolIdentity × MergedResult) :=
  accumulate (·.1.parts) (·.1.parts) id fuse rows

/-- The next rows of a tier. -/
def fuseRows (st : List (SymbolIdentity × MergedResult) × List MergedResult)
    (rows : List (Option SymbolIdentity × MergedResult)) :
    List (SymbolIdentity × MergedResult) × List MergedResult :=
  ((keyedRows rows).foldl (fun es row => upsert (·.1.parts) row.1.parts row (fuse row) es) st.1,
    st.2 ++ unkeyedRows rows)

variable {k weight : ℚ} {st : List (SymbolIdentity × MergedResult) × List MergedResult}

lemma fuseRows_cons (row : Option SymbolIdentity × MergedResult)
    (rows : List (Option SymbolIdentity × MergedResult)) :
    fuseRows st (row :: rows) = fuseRows (match row.1 with
      | some id => (upsert (·.1.parts) id.parts (id, row.2) (fuse (id, row.2)) st.1, st.2)
      | none => (st.1, st.2 ++ [row.2])) rows := by
  obtain ⟨id, r⟩ := row
  cases id with
  | none => simp [fuseRows, keyedRows, unkeyedRows]
  | some id => simp [fuseRows, keyedRows, unkeyedRows]

lemma foldl_scoreLocal (rows : List ((Json × Option SymbolIdentity) × ℕ)) :
    rows.foldl (scoreLocal k weight) st = fuseRows st (rows.map fun ((value, id), rank) =>
      (id, ⟨value, .«local», if id.isSome then inferConfidence value else .heuristic,
        weight / (rank + k + 1)⟩)) := by
  induction rows generalizing st with
  | nil => simp [fuseRows, keyedRows, unkeyedRows]
  | cons row rows ih =>
    obtain ⟨⟨value, id⟩, rank⟩ := row
    rw [List.foldl_cons, ih, List.map_cons, fuseRows_cons]
    cases id with
    | none => rfl
    | some id =>
      have hfuse : ∀ r : MergedResult, r.provenance = .«local» → fuse (id, r) = fun (id, existing) =>
          (id, { existing with score := existing.score + r.score }) := by
        intro r hr
        funext e
        simp [fuse, hr]
      simp only [scoreLocal, Option.isSome_some, if_true]
      rw [hfuse _ rfl]

lemma foldl_scoreServer (rows : List ((Json × Option SymbolIdentity) × ℕ)) :
    rows.foldl (scoreServer k) st = fuseRows st (rows.map fun ((value, id), rank) =>
      (id, ⟨value, .server, if id.isSome then inferConfidence value else .heuristic,
        serverWeight / (rank + k + 1)⟩)) := by
  induction rows generalizing st with
  | nil => simp [fuseRows, keyedRows, unkeyedRows]
  | cons row rows ih =>
    obtain ⟨⟨value, id⟩, rank⟩ := row
    rw [List.foldl_cons, ih, List.map_cons, fuseRows_cons]
    cases id with
    | none => rfl
    | some id =>
      have hfuse : ∀ r : MergedResult, r.provenance = .server → fuse (id, r) = fun (id, existing) =>
          (id, { existing with
            provenance := if existing.provenance = .«local» then .both else existing.provenance
            score := existing.score + r.score }) := by
        intro r hr
        funext e
        simp [fuse, hr]
      simp only [scoreServer, Option.isSome_some, if_true]
      rw [hfuse _ rfl]

/-! ## The entry of an identity -/

/-- What the rows of an identity come to: the content of the first one, the tiers that it occurs in, and
the sum of the weights. -/
def rowOf (rows : List (SymbolIdentity × MergedResult)) : Option (SymbolIdentity × MergedResult) :=
  rows.head?.map fun first => (first.1,
    { value := first.2.value
      confidence := first.2.confidence
      provenance := if ∀ row ∈ rows, row.2.provenance = .«local» then .«local»
        else if ∀ row ∈ rows, row.2.provenance = .server then .server else .both
      score := (rows.map (·.2.score)).sum })

/-- Rows of the local tier and then rows of the server. -/
structure Tiered (rows : List (SymbolIdentity × MergedResult)) : Prop where
  tier : ∀ row ∈ rows, row.2.provenance = .«local» ∨ row.2.provenance = .server
  order : rows.Pairwise fun a b => a.2.provenance = .server → b.2.provenance = .server

variable {rows : List (SymbolIdentity × MergedResult)} {row : SymbolIdentity × MergedResult}

lemma Tiered.filter (h : Tiered rows) (p : SymbolIdentity × MergedResult → Bool) :
    Tiered (rows.filter p) :=
  ⟨fun row hrow => h.tier row (List.mem_filter.mp hrow).1, h.order.filter p⟩

lemma Tiered.append {front back : List (SymbolIdentity × MergedResult)}
    (hfront : ∀ row ∈ front, row.2.provenance = .«local»)
    (hback : ∀ row ∈ back, row.2.provenance = .server) : Tiered (front ++ back) := by
  refine ⟨fun row hrow => ?_, List.pairwise_append.mpr ⟨?_, ?_, ?_⟩⟩
  · exact (List.mem_append.mp hrow).imp (hfront row) (hback row)
  · refine List.pairwise_of_forall_mem_list fun a ha b _ hserver => ?_
    rw [hfront a ha] at hserver
    cases hserver
  · exact List.pairwise_of_forall_mem_list fun a _ b hb _ => hback b hb
  · exact fun a _ b hb _ => hback b hb

/-- A row more: the provenance of its identity. -/
lemma provenance_concat {first : SymbolIdentity × MergedResult} (h : Tiered (first :: rows ++ [row])) :
    (if row.2.provenance = .server ∧ (if ∀ r ∈ first :: rows, r.2.provenance = .«local» then
        Provenance.«local» else if ∀ r ∈ first :: rows, r.2.provenance = .server then .server else .both)
        = .«local» then Provenance.both
      else if ∀ r ∈ first :: rows, r.2.provenance = .«local» then .«local»
      else if ∀ r ∈ first :: rows, r.2.provenance = .server then .server else .both) =
    if ∀ r ∈ first :: rows ++ [row], r.2.provenance = .«local» then .«local»
    else if ∀ r ∈ first :: rows ++ [row], r.2.provenance = .server then .server else .both := by
  have happend : ∀ tier : Provenance, (∀ r ∈ first :: rows ++ [row], r.2.provenance = tier) ↔
      (∀ r ∈ first :: rows, r.2.provenance = tier) ∧ row.2.provenance = tier := by
    intro tier
    rw [List.forall_mem_append, List.forall_mem_singleton]
  simp only [happend]
  have hfirst := h.tier first (by simp)
  obtain hlocal | hserver := h.tier row (by simp)
  · -- a local row: there are only local rows before it
    have hall : ∀ r ∈ first :: rows, r.2.provenance = .«local» := by
      intro r hr
      refine (h.tier r (List.mem_append_left _ hr)).resolve_right fun hserver => ?_
      have := (List.pairwise_append.mp h.order).2.2 r hr row (by simp) hserver
      rw [hlocal] at this
      cases this
    rw [if_neg (by simp [hlocal]), if_pos hall, if_pos ⟨hall, hlocal⟩]
  · rw [if_neg (c := (∀ r ∈ first :: rows, r.2.provenance = .«local») ∧ _) (by simp [hserver])]
    by_cases hall : ∀ r ∈ first :: rows, r.2.provenance = .«local»
    · have hnot : ¬∀ r ∈ first :: rows, r.2.provenance = .server := by
        intro hservers
        have hlocal := hall first (by simp)
        rw [hservers first (by simp)] at hlocal
        cases hlocal
      simp only [if_pos hall, hserver, hnot, false_and, and_self, if_true, if_false]
    · by_cases hservers : ∀ r ∈ first :: rows, r.2.provenance = .server
      · simp only [if_neg hall, if_pos hservers, hserver, and_true, and_false, reduceCtorEq, if_false]
      · simp only [if_neg hall, if_neg hservers, hserver, and_false, reduceCtorEq, if_false]
        rw [if_neg fun hboth => hservers hboth.1]

/-- The entry of an identity is what its rows come to. -/
lemma groupEntry_eq (h : Tiered rows) : groupEntry id fuse rows = rowOf rows := by
  induction rows using List.reverseRecOn with
  | nil => rfl
  | append_singleton rows row ih =>
    have hrows : Tiered rows := ⟨fun r hr => h.tier r (List.mem_append_left _ hr),
      (List.pairwise_append.mp h.order).1⟩
    rw [groupEntry_concat, ih hrows]
    cases rows with
    | nil =>
      have htier := h.tier row (by simp)
      obtain ⟨id, value, provenance, confidence, score⟩ := row
      obtain rfl | rfl : provenance = .«local» ∨ provenance = .server := htier
      · simp [rowOf]
      · simp [rowOf]
    | cons first rows =>
      have hprovenance := provenance_concat h
      simp only [rowOf, fuse, List.head?_cons, List.cons_append, Option.map_some, Option.getD_some] at hprovenance ⊢
      rw [hprovenance]
      simp [add_assoc]

/-! ## The merge -/

section

variable {digest : Option (String ⊕ ℕ) → ℕ} {vaultOrder vaultOrder' : ℕ → Iteration}
  {order order' : Iteration} {loc server : List Json} {mappings mappings' : List (String × String)}
  {row row' : SymbolIdentity × MergedResult}

/-- The rows of both tiers, each as a result of its own. -/
def allRows (digest : Option (String ⊕ ℕ) → ℕ) (vaultOrder : ℕ → Iteration) (loc server : List Json)
    (k weight : ℚ) (mappings : List (String × String)) : List (Option SymbolIdentity × MergedResult) :=
  let (localIds, serverIds, _) :=
    identifyTiersWithVaultMappings digest vaultOrder loc server mappings
  tierRows .«local» k weight loc localIds ++ tierRows .server k serverWeight server serverIds

lemma keyedRows_append (front back : List (Option SymbolIdentity × MergedResult)) :
    keyedRows (front ++ back) = keyedRows front ++ keyedRows back := List.filterMap_append ..

lemma unkeyedRows_append (front back : List (Option SymbolIdentity × MergedResult)) :
    unkeyedRows (front ++ back) = unkeyedRows front ++ unkeyedRows back := by
  simp [unkeyedRows]

/-- The merge sorts what the rows accumulate. -/
lemma merge_eq : rrfMergeWeightedMapped digest vaultOrder order loc server k weight mappings =
    finalizeOrdering order (entries (keyedRows (allRows digest vaultOrder loc server k weight mappings)))
      (unkeyedRows (allRows digest vaultOrder loc server k weight mappings)) := by
  simp only [rrfMergeWeightedMapped, allRows, foldl_scoreLocal, foldl_scoreServer, fuseRows, entries,
    accumulate, keyedRows_append, unkeyedRows_append, List.foldl_append, List.nil_append]
  rfl

/-- The identities do not depend on any order. -/
lemma allRows_perm (h : mappings'.Perm mappings) :
    allRows digest vaultOrder' loc server k weight mappings' =
      allRows digest vaultOrder loc server k weight mappings := by
  simp only [allRows, identifyTiersWithVaultMappings, keys_eq,
    plan_perm vaultOrder vaultOrder' (List.Perm.refl _) (List.Perm.refl _) h]

lemma keyedRows_tierRows {tier : Provenance} {values : List Json} {f : Json → Option SymbolIdentity}
    (hrow : row ∈ keyedRows (tierRows tier k weight values (values.map f))) :
    row.2.provenance = tier ∧ f row.2.value = some row.1 := by
  obtain ⟨⟨id, r⟩, hmem, hid⟩ := List.mem_filterMap.mp hrow
  obtain ⟨⟨⟨value, id'⟩, rank⟩, hzip, heq⟩ := List.mem_map.mp hmem
  obtain ⟨rfl, rfl⟩ := Prod.mk.inj heq
  obtain ⟨id, hsome, rfl⟩ := Option.map_eq_some_iff.mp hid
  obtain rfl : id' = some id := hsome
  have hpair := List.mem_of_getElem? (List.mk_mem_zipIdx_iff_getElem?.mp hzip)
  have hzips : values.zip (values.map f) = values.map fun v => (v, f v) := by
    simpa using List.zip_map' (f := fun v => v) (g := f) (l := values)
  rw [hzips] at hpair
  obtain ⟨v, -, heq⟩ := List.mem_map.mp hpair
  obtain ⟨rfl, hf⟩ := Prod.mk.inj heq
  exact ⟨rfl, hf⟩

/-- The identity that a row is given is a function of its tier and of its value. -/
lemma exists_identity (digest : Option (String ⊕ ℕ) → ℕ) (vaultOrder : ℕ → Iteration)
    (loc server : List Json) (k weight : ℚ) (mappings : List (String × String)) :
    ∃ identity : Provenance → Json → Option SymbolIdentity,
      (∀ row ∈ keyedRows (allRows digest vaultOrder loc server k weight mappings),
        identity row.2.provenance row.2.value = some row.1) ∧
      Tiered (keyedRows (allRows digest vaultOrder loc server k weight mappings)) := by
  let accepted := plan vaultOrder (entityKeys (loc.map (extractIdentity digest)))
    (entityKeys (server.map (extractIdentity digest))) mappings
  let identity : Provenance → Json → Option SymbolIdentity := fun tier value =>
    if tier = .«local» then extractIdentity digest value
    else (extractIdentity digest value).map (·.moved accepted)
  have hrows : allRows digest vaultOrder loc server k weight mappings =
      tierRows .«local» k weight loc (loc.map (identity .«local»)) ++
        tierRows .server k serverWeight server (server.map (identity .server)) := by
    simp only [allRows, identifyTiersWithVaultMappings, keys_eq, putKeys_map, List.map_map]
    rfl
  rw [hrows, keyedRows_append]
  refine ⟨identity, fun row hrow => ?_, Tiered.append ?_ ?_⟩
  · obtain hrow | hrow := List.mem_append.mp hrow
    · obtain ⟨htier, hid⟩ := keyedRows_tierRows hrow
      rw [htier]
      exact hid
    · obtain ⟨htier, hid⟩ := keyedRows_tierRows hrow
      rw [htier]
      exact hid
  · exact fun row hrow => (keyedRows_tierRows hrow).1
  · exact fun row hrow => (keyedRows_tierRows hrow).1

/-! ## The order of the results -/

lemma before_iff {a b : String × MergedResult} :
    Before a b ↔ b.2.score < a.2.score ∨ b.2.score = a.2.score ∧ a.1 ≤ b.1 := by
  rw [Before, not_lt]

instance : Std.Total Before where
  total a b := by
    rw [before_iff, before_iff]
    obtain hlt | heq | hlt := lt_trichotomy a.2.score b.2.score
    · exact .inr (.inl hlt)
    · exact (le_total a.1 b.1).imp (fun h => .inr ⟨heq.symm, h⟩) fun h => .inr ⟨heq, h⟩
    · exact .inl (.inl hlt)

instance : IsTrans _ Before where
  trans a b c := by
    rw [before_iff, before_iff, before_iff]
    rintro (hab | ⟨hab, hkey⟩) (hbc | ⟨hbc, hkey'⟩)
    · exact .inl (hbc.trans hab)
    · exact .inl (hbc ▸ hab)
    · exact .inl (hab ▸ hbc)
    · exact .inr ⟨hbc.trans hab, hkey.trans hkey'⟩

lemma tied_before {a b : String × MergedResult} :
    StableSort.Tied Before a b ↔ a.2.score = b.2.score ∧ a.1 = b.1 := by
  rw [StableSort.Tied, before_iff, before_iff]
  constructor
  · rintro ⟨hab | ⟨hab, hkey⟩, hba | ⟨hba, hkey'⟩⟩
    · exact absurd hba hab.asymm
    · exact absurd hab (hba ▸ lt_irrefl _)
    · exact absurd hba (hab ▸ lt_irrefl _)
    · exact ⟨hba, le_antisymm hkey hkey'⟩
  · rintro ⟨hscore, hkey⟩
    exact ⟨.inr ⟨hscore.symm, hkey.le⟩, .inr ⟨hscore, hkey.ge⟩⟩

/-- The rows of one identity. -/
def rowsOf (rows : List (SymbolIdentity × MergedResult))
    (parts : String × String × String × ℕ × Option String) : List (SymbolIdentity × MergedResult) :=
  rows.filter fun row => row.1.parts = parts

/-- The sum of the weights of an identity. -/
def totalScore (rows : List (SymbolIdentity × MergedResult)) (id : SymbolIdentity) : ℚ :=
  ((rowsOf rows id.parts).map (·.2.score)).sum

/-- Two identities with equal scores are given one key. -/
def Clash (rows : List (SymbolIdentity × MergedResult)) : Prop :=
  ∃ a ∈ rows, ∃ b ∈ rows, a.1.parts ≠ b.1.parts ∧ identityTiebreaker a.1 = identityTiebreaker b.1 ∧
    totalScore rows a.1 = totalScore rows b.1

lemma fuse_parts (row e : SymbolIdentity × MergedResult) (h : e.1.parts = row.1.parts) :
    (fuse row e).1.parts = row.1.parts := h

lemma mem_entries (h : Tiered rows) {e : SymbolIdentity × MergedResult} :
    e ∈ entries rows ↔ rowOf (rowsOf rows e.1.parts) = some e := by
  have hmem : e ∈ entries rows ↔ groupEntry id fuse (rowsOf rows e.1.parts) = some e :=
    mem_accumulate (fun _ => rfl) fuse_parts
  have hrows : Tiered (rowsOf rows e.1.parts) := h.filter _
  rw [hmem, groupEntry_eq hrows]

lemma nodup_entries (rows : List (SymbolIdentity × MergedResult)) :
    ((entries rows).map (·.1.parts)).Nodup :=
  nodup_accumulate (fun _ => rfl) fuse_parts rows

/-- The entry of an identity from the first of its rows. -/
lemma exists_first (h : Tiered rows) {e : SymbolIdentity × MergedResult} (he : rowOf rows = some e) :
    ∃ first ∈ rows, first.1 = e.1 ∧ first.2.value = e.2.value ∧
      (first.2.provenance = .server ↔ e.2.provenance = .server) := by
  cases rows with
  | nil => cases he
  | cons first rows =>
    cases he
    refine ⟨first, List.mem_cons_self, rfl, rfl, ?_⟩
    constructor
    · intro hserver
      have hall : ∀ row ∈ first :: rows, row.2.provenance = .server := by
        intro row hrow
        obtain rfl | hrow := List.mem_cons.mp hrow
        · exact hserver
        · exact (List.pairwise_cons.mp h.order).1 row hrow hserver
      have hnot : ¬∀ row ∈ first :: rows, row.2.provenance = .«local» := by
        intro hlocal
        rw [hlocal first List.mem_cons_self] at hserver
        cases hserver
      simp only [if_neg hnot, if_pos hall]
    · intro hserver
      by_contra hfirst
      have hnot : ¬∀ row ∈ first :: rows, row.2.provenance = .server :=
        fun hall => hfirst (hall first List.mem_cons_self)
      simp only [if_neg hnot] at hserver
      split_ifs at hserver

lemma score_of_rowOf {e : SymbolIdentity × MergedResult} (he : rowOf rows = some e) :
    e.2.score = (rows.map (·.2.score)).sum := by
  obtain ⟨first, -, rfl⟩ := Option.map_eq_some_iff.mp he
  rfl

/-- An entry with its key. -/
def withKey (e : SymbolIdentity × MergedResult) : String × MergedResult := (identityTiebreaker e.1, e.2)

/-- Without a clash no two entries are tied. -/
lemma not_tied (h : Tiered rows) (hclash : ¬Clash rows) {x y : SymbolIdentity × MergedResult}
    (hx : x ∈ entries rows) (hy : y ∈ entries rows) (hne : withKey x ≠ withKey y) :
    ¬StableSort.Tied Before (withKey x) (withKey y) := by
  rw [tied_before]
  rintro ⟨hscore, hkey⟩
  have hparts : x.1.parts ≠ y.1.parts := by
    intro heq
    exact hne (by rw [List.inj_on_of_nodup_map (nodup_entries rows) hx hy heq])
  rw [mem_entries h] at hx hy
  obtain ⟨a, ha, hax, -⟩ := exists_first (h.filter _) hx
  obtain ⟨b, hb, hby, -⟩ := exists_first (h.filter _) hy
  refine hclash ⟨a, (List.mem_filter.mp ha).1, b, (List.mem_filter.mp hb).1, ?_, ?_, ?_⟩
  · rw [hax, hby]
    exact hparts
  · rw [hax, hby]
    exact hkey
  · rw [totalScore, totalScore, hax, hby, ← score_of_rowOf hx, ← score_of_rowOf hy]
    exact hscore

lemma exists_entry (h : Tiered rows) {a : SymbolIdentity × MergedResult} (ha : a ∈ rows) :
    ∃ x ∈ entries rows, x.1.parts = a.1.parts ∧ identityTiebreaker x.1 = identityTiebreaker a.1 ∧
      x.2.score = totalScore rows a.1 := by
  have hmem : a ∈ rowsOf rows a.1.parts := List.mem_filter.mpr ⟨ha, by simp⟩
  obtain ⟨x, hx⟩ : ∃ x, rowOf (rowsOf rows a.1.parts) = some x := by
    cases hrows : rowsOf rows a.1.parts with
    | nil =>
      rw [hrows] at hmem
      cases hmem
    | cons first rest => exact ⟨_, rfl⟩
  obtain ⟨first, hfirst, heq, -⟩ := exists_first (h.filter _) hx
  have hparts : x.1.parts = a.1.parts := by
    rw [← heq]
    simpa [rowsOf] using (List.mem_filter.mp hfirst).2
  refine ⟨x, ?_, hparts, ?_, score_of_rowOf hx⟩
  · rw [mem_entries h, hparts]
    exact hx
  · have hentity : x.1.entity.map (·.key) = a.1.entity.map (·.key) := congrArg (·.2.2.2.2) hparts
    have hrepo : x.1.repoUrl = a.1.repoUrl := congrArg (·.1) hparts
    have hfile : x.1.filePath = a.1.filePath := congrArg (·.2.1) hparts
    have hname : x.1.symbolName = a.1.symbolName := congrArg (·.2.2.1) hparts
    have hhash : x.1.scopeHash = a.1.scopeHash := congrArg (·.2.2.2.1) hparts
    rw [identityTiebreaker, identityTiebreaker, hentity, hrepo, hfile, hname, hhash]

/-- What the merge is to put in order: one entry for each identity, and the rows without one. -/
def expected (rows : List (Option SymbolIdentity × MergedResult)) : List (String × MergedResult) :=
  (((keyedRows rows).map (·.1.parts)).dedup.filterMap fun parts =>
    (rowOf (rowsOf (keyedRows rows) parts)).map withKey) ++
  (unkeyedRows rows).map fun r => ("\x7f" ++ r.value.toText, r)

lemma entries_perm (h : Tiered rows) : (entries rows).Perm
    ((rows.map (·.1.parts)).dedup.filterMap fun parts => rowOf (rowsOf rows parts)) := by
  have hperm : (entries rows).Perm ((rows.map (·.1.parts)).dedup.filterMap fun parts =>
      groupEntry id fuse (rowsOf rows parts)) := accumulate_perm (fun _ => rfl) fuse_parts rows
  have hgroup : ∀ parts, groupEntry id fuse (rowsOf rows parts) = rowOf (rowsOf rows parts) :=
    fun parts => groupEntry_eq (h.filter _)
  simpa only [hgroup] using hperm

/-- The entries as the sort finds them. -/
def toSort (order : Iteration) (rows : List (Option SymbolIdentity × MergedResult)) :
    List (String × MergedResult) :=
  (order.visit (entries (keyedRows rows))).map withKey ++
    (unkeyedRows rows).map fun r => ("\x7f" ++ r.value.toText, r)

lemma toSort_perm {rows : List (Option SymbolIdentity × MergedResult)} (h : Tiered (keyedRows rows)) :
    (toSort order rows).Perm (expected rows) := by
  refine List.Perm.append ?_ (List.Perm.refl _)
  rw [← List.map_filterMap]
  exact ((order.perm _).trans (entries_perm h)).map _

lemma merge_eq_toSort : rrfMergeWeightedMapped digest vaultOrder order loc server k weight mappings =
    ((toSort order (allRows digest vaultOrder loc server k weight mappings)).insertionSort Before).map
      Prod.snd := by
  rw [merge_eq]
  rfl

/-- A clash shows in the order of the results. -/
lemma exists_orders (hclash : Clash (keyedRows (allRows digest vaultOrder loc server k weight mappings))) :
    ∃ order order', rrfMergeWeightedMapped digest vaultOrder order loc server k weight mappings ≠
      rrfMergeWeightedMapped digest vaultOrder order' loc server k weight mappings := by
  obtain ⟨identity, hidentity, htiered⟩ :=
    exists_identity digest vaultOrder loc server k weight mappings
  obtain ⟨a, ha, b, hb, hparts, hkey, htotal⟩ := hclash
  obtain ⟨x, hx, hxparts, hxkey, hxscore⟩ := exists_entry htiered ha
  obtain ⟨y, hy, hyparts, hykey, hyscore⟩ := exists_entry htiered hb
  have hxy : x.1.parts ≠ y.1.parts := by
    rw [hxparts, hyparts]
    exact hparts
  -- one value in one tier has one identity
  have hrow : x.2 ≠ y.2 := by
    intro heq
    obtain ⟨first, hfirst, hid, hvalue, htier⟩ := exists_first (htiered.filter _) ((mem_entries htiered).mp hx)
    obtain ⟨first', hfirst', hid', hvalue', htier'⟩ :=
      exists_first (htiered.filter _) ((mem_entries htiered).mp hy)
    have hmem := (List.mem_filter.mp hfirst).1
    have hmem' := (List.mem_filter.mp hfirst').1
    have hsame : first.2.provenance = first'.2.provenance := by
      rw [heq, ← htier'] at htier
      obtain h | h := htiered.tier first hmem
      · obtain h' | h' := htiered.tier first' hmem'
        · rw [h, h']
        · rw [htier.mpr h'] at h
          cases h
      · rw [h, htier.mp h]
    have hone := hidentity first hmem
    rw [hsame, hvalue, heq, ← hvalue', hidentity first' hmem', hid, hid'] at hone
    exact hxy (by rw [Option.some.inj hone])
  have htied : StableSort.Tied Before (withKey x) (withKey y) := by
    rw [tied_before]
    exact ⟨hxscore.trans (htotal.trans hyscore.symm), hxkey.trans (hkey.trans hykey.symm)⟩
  obtain ⟨order, order', rest, horder, horder'⟩ :=
    Iteration.exists_visit_front hx hy fun heq => hxy (by rw [heq])
  obtain ⟨front, back, hsort, hsort'⟩ := StableSort.exists_insertionSort_swap htied
    (rest.map withKey ++ (unkeyedRows (allRows digest vaultOrder loc server k weight mappings)).map
      fun r => ("\x7f" ++ r.value.toText, r))
  refine ⟨order, order', fun heq => hrow ?_⟩
  rw [merge_eq_toSort, merge_eq_toSort, toSort, toSort, horder, horder'] at heq
  simp only [List.map_cons, List.cons_append] at heq
  rw [hsort, hsort'] at heq
  simp only [List.map_append, List.map_cons, List.append_cancel_left_eq, List.cons.injEq] at heq
  exact heq.1

/-- **The merge.**  Whatever the orders of the hash containers are, the result is one row for each
identity, with the content of its first row, the tiers that it occurs in and the sum of its weights, and
one row for each that has no identity, sorted by score and by key.  It is the same for all orders if and
only if no two identities with equal scores have the same key. -/
theorem rrfMerge_exact_iff (digest : Option (String ⊕ ℕ) → ℕ) (loc server : List Json) (k weight : ℚ)
    (mappings : List (String × String)) :
    (∀ vaultOrder order mappings', mappings'.Perm mappings →
      ∃ sorted : List (String × MergedResult),
        sorted.Perm (expected (allRows digest (fun _ => .inOrder) loc server k weight mappings)) ∧
        sorted.Pairwise Before ∧
        rrfMergeWeightedMapped digest vaultOrder order loc server k weight mappings' =
          sorted.map Prod.snd) ∧
    ((∀ vaultOrder vaultOrder' order order' mappings', mappings'.Perm mappings →
        rrfMergeWeightedMapped digest vaultOrder' order' loc server k weight mappings' =
          rrfMergeWeightedMapped digest vaultOrder order loc server k weight mappings) ↔
      ¬Clash (keyedRows (allRows digest (fun _ => .inOrder) loc server k weight mappings))) := by
  have hrows : ∀ vaultOrder mappings', mappings'.Perm mappings →
      allRows digest vaultOrder loc server k weight mappings' =
        allRows digest (fun _ => .inOrder) loc server k weight mappings :=
    fun vaultOrder mappings' h => allRows_perm h
  obtain ⟨identity, -, htiered⟩ :=
    exists_identity digest (fun _ => .inOrder) loc server k weight mappings
  refine ⟨fun vaultOrder order mappings' h => ?_, fun hsame hclash => ?_, fun hclash => ?_⟩
  · refine ⟨_, (List.perm_insertionSort Before _).trans ?_, List.pairwise_insertionSort Before _,
      merge_eq_toSort⟩
    rw [hrows vaultOrder mappings' h]
    exact toSort_perm htiered
  · obtain ⟨order, order', hne⟩ := exists_orders hclash
    exact hne (hsame _ _ order' order mappings (List.Perm.refl _))
  · intro vaultOrder vaultOrder' order order' mappings' h
    rw [merge_eq_toSort, merge_eq_toSort, hrows vaultOrder' mappings' h,
      hrows vaultOrder mappings (List.Perm.refl _)]
    refine congrArg (List.map Prod.snd) (StableSort.insertionSort_perm_append ?_ ?_)
    · exact (((order'.perm _).trans (order.perm _).symm)).map _
    · intro x hx y hy hne
      obtain ⟨e, he, rfl⟩ := List.mem_map.mp hx
      obtain ⟨e', he', rfl⟩ := List.mem_map.mp hy
      exact not_tied htiered hclash (order'.mem_visit.mp he) (order'.mem_visit.mp he') hne

end

/-! ## Names with separators in them -/

def nameRow (file name : String) : Json := .obj [("file", .str file), ("name", .str name)]

/-- The result of a row like that. -/
def nameResult (tier : Provenance) (file name : String) (scopeHash : ℕ) (score : ℚ) :
    SymbolIdentity × MergedResult :=
  (⟨file, file, name, scopeHash, none⟩, ⟨nameRow file name, tier, .heuristic, score⟩)

def localNames : List Json :=
  List.replicate 32 (nameRow "lib.rs" "main") ++ [nameRow "x" "x\x1fx\x1fy"]

def serverNames : List Json := [nameRow "lib.rs" "main", nameRow "x\x1fx" "y"]

lemma keyedRows_names (digest : Option (String ⊕ ℕ) → ℕ) :
    keyedRows (allRows digest (fun _ => .inOrder) localNames serverNames rrfK localWeight []) =
      (List.range 32).map (fun rank : ℕ =>
        nameResult .«local» "lib.rs" "main" (digest none) (localWeight / (rank + rrfK + 1))) ++
      [nameResult .«local» "x" "x\x1fx\x1fy" (digest none) (localWeight / ((32 : ℕ) + rrfK + 1)),
        nameResult .server "lib.rs" "main" (digest none) (serverWeight / ((0 : ℕ) + rrfK + 1)),
        nameResult .server "x\x1fx" "y" (digest none) (serverWeight / ((1 : ℕ) + rrfK + 1))] := rfl

/-- With the weights in use, two results of equal score come in the order of the hash map. -/
theorem names_clash : ¬∃ digest, ∀ order order',
    rrfMergeWithVaultMappings digest (fun _ => .inOrder) order localNames serverNames [] =
      rrfMergeWithVaultMappings digest (fun _ => .inOrder) order' localNames serverNames [] := by
  rintro ⟨digest, hequal⟩
  have hclash : ∃ order order',
      rrfMergeWithVaultMappings digest (fun _ => .inOrder) order localNames serverNames [] ≠
        rrfMergeWithVaultMappings digest (fun _ => .inOrder) order' localNames serverNames [] := by
    refine exists_orders ?_
    rw [keyedRows_names]
    refine ⟨_, List.mem_append_right _ (.head _), _,
      List.mem_append_right _ (.tail _ (.tail _ (.head _))), ?_, ?_, ?_⟩
    · simp [nameResult, SymbolIdentity.parts]
    · have hfront : "" ++ "\x1f" ++ "x" ++ "\x1f" ++ "x" ++ "\x1f" ++ "x\x1fx\x1fy" ++ "\x1f" =
          "" ++ "\x1f" ++ "x\x1fx" ++ "\x1f" ++ "x\x1fx" ++ "\x1f" ++ "y" ++ "\x1f" := by decide
      exact congrArg (· ++ toString (digest none)) hfront
    · simp [totalScore, rowsOf, nameResult, SymbolIdentity.parts, List.filter_map,
        Function.comp_def]
      norm_num [localWeight, serverWeight, rrfK]
  obtain ⟨order, order', hne⟩ := hclash
  exact hne (hequal order order')

end Federation
end NestWeaver
