import NestWeaver.Engine.DeadCodePage
import NestWeaver.Mcp.OutputReduction

/-!
# Paging through the output budget

A client asks for the first page of dead code and then follows the cursor of each page it is given.
Whatever the finalizer cuts, the pages together show the matching rows once and in order
(`paging_survives`).
-/

set_option linter.all false

namespace NestWeaver
namespace Mcp
namespace OutputBudget

open Json DeadCode

/-- What the pages are bound to.  The rows are a vector, and the generation has 64 bits. -/
structure Population where
  result : DeadCodeResult
  manifestLoadError : Option String
  generation : ℕ
  databaseIdentity : String
  rows_lt : result.unreachableSymbols.length < 2 ^ 63
  generation_lt : generation < 2 ^ 64

section Paging

variable (hash : String → String) (percent : ℚ → String) (sha256 : String → Fin 32 → Fin 256)

/-- One run of the finalizer delivers this structured content of that one. -/
def Finalizes (content content' : Json) : Prop :=
  ∃ result result', result.get "structuredContent" = some content ∧
    finalizeStructured hash result = .delivered result' ∧
    result'.get "structuredContent" = some content'

/-- A payload may be given more fields, and goes through the finalizer once or more. -/
def Delivered (payload page : Json) : Prop :=
  ∃ content, (∀ k u, payload.get k = some u → content.get k = some u) ∧
    Relation.TransGen (Finalizes hash) content page

def Population.token (pop : Population) (minConfidence : DeadCodeConfidence) : String :=
  pageToken percent sha256 pop.result pop.manifestLoadError minConfidence pop.generation
    pop.databaseIdentity

def Population.serialize (pop : Population) (request : DeadCodePageRequest) : Except String Json :=
  serializeDeadCodePage percent sha256 pop.result pop.manifestLoadError request pop.generation
    pop.databaseIdentity

/-! ## The client -/

/-- The identities that a page shows. -/
def rowUids (page : Json) : List (Option String) :=
  (((page.getD "unreachable_symbols").asArr).getD []).map fun row => (row.get "uid").bind asStr

def firstRequest (minConfidence : DeadCodeConfidence) (limit : ℕ) (concise : Bool) :
    DeadCodePageRequest :=
  ⟨minConfidence, limit, 0, none, none, concise⟩

/-- The request for what follows a page. -/
def continuation (page : Json) (minConfidence : DeadCodeConfidence) (limit : ℕ) (concise : Bool) :
    Option DeadCodePageRequest :=
  match asU64 (page.getD "next_offset"), asU64 (page.getD "graph_generation"),
      (page.getD "page_token").asStr with
  | some offset, some generation, some token =>
    some ⟨minConfidence, limit, offset, some generation, some token, concise⟩
  | _, _, _ => none

/-- The pages of a client that follows the cursors, with any limit at each page. -/
inductive Session (pop : Population) (minConfidence : DeadCodeConfidence) : List Json → Prop
  | first {limit : ℕ} {concise : Bool} {payload page : Json}
      (serialized : pop.serialize percent sha256 (firstRequest minConfidence limit concise) =
        .ok payload)
      (delivered : Delivered hash payload page) : Session pop minConfidence [page]
  | next {pages : List Json} {page page' payload : Json} {limit : ℕ} {concise : Bool}
      {request : DeadCodePageRequest} (before : Session pop minConfidence (pages ++ [page]))
      (more : page.get "has_more" = some (.bool true))
      (follows : continuation page minConfidence limit concise = some request)
      (serialized : pop.serialize percent sha256 request = .ok payload)
      (delivered : Delivered hash payload page') :
      Session pop minConfidence (pages ++ [page] ++ [page'])

/-! ## One page -/

variable {hash percent sha256}

lemma Finalizes.reduced {content content' : Json} (h : Relation.TransGen (Finalizes hash) content content') :
    Reduced "" content content' := by
  induction h with
  | single h =>
    obtain ⟨result, result', hget, hfinal, hget'⟩ := h
    obtain ⟨v', hv', hred⟩ := finalizeStructured_reduced hget hfinal
    exact Option.some.inj (hv'.symm.trans hget') ▸ hred
  | tail _ h ih =>
    obtain ⟨result, result', hget, hfinal, hget'⟩ := h
    obtain ⟨v', hv', hred⟩ := finalizeStructured_reduced hget hfinal
    exact ih.trans (Option.some.inj (hv'.symm.trans hget') ▸ hred)

lemma strLen_hex {token : String} (h : isWellFormedPageToken token = true) : strLen token = 64 := by
  rw [isWellFormedPageToken, Bool.and_eq_true] at h
  have hbytes : ∀ l : List Char, l.all isHexDigit = true → byteLen l = l.length := by
    intro l hl
    induction l with
    | nil => rfl
    | cons c l ih =>
      rw [List.all_cons, Bool.and_eq_true] at hl
      have hascii : c.utf8Size = 1 := by
        have hle : c.toNat ≤ 127 := by
          have hdigit := hl.1
          simp only [isHexDigit, Bool.or_eq_true, Bool.and_eq_true, decide_eq_true_eq,
            Char.le_def, UInt32.le_iff_toNat_le] at hdigit
          change c.val.toNat ≤ 127
          obtain ⟨-, hhigh⟩ | ⟨-, hhigh⟩ := hdigit
          · exact hhigh.trans (by decide)
          · exact hhigh.trans (by decide)
        exact Char.utf8Size_eq_one_iff.mpr hle
      rw [byteLen, ih hl.2, hascii, List.length_cons, add_comm]
  rw [strLen, hbytes _ h.2]
  exact of_decide_eq_true h.1

/-- A row keeps its identity. -/
lemma uid_of_reduced {row row' : Json} {uid : String} (h : Reduced "unreachable_symbols" row row')
    (hget : row.get "uid" = some (.str uid)) : row'.get "uid" = some (.str uid) := by
  obtain ⟨u', hget', hwritten | hred⟩ := h.field hget (by decide)
  · exact absurd hwritten.1 (by decide)
  · cases hred with
    | refl => exact hget'
    | text long plain => exact absurd plain (by decide +kernel)

lemma rowUids_of_reduced {rows rows' : List Json} {uids : List String}
    (huids : rows.map (fun row => row.get "uid") = uids.map fun uid => some (.str uid))
    (hlen : rows'.length ≤ rows.length)
    (h : ∀ (i : ℕ) u u', rows[i]? = some u → rows'[i]? = some u' → Reduced "unreachable_symbols" u u') :
    rows'.map (fun row => (row.get "uid").bind asStr) = (uids.take rows'.length).map some := by
  have huidsLen : rows.length = uids.length := by simpa using congrArg List.length huids
  refine List.ext_getElem (by simp; omega) fun i hi hi' => ?_
  rw [List.length_map] at hi
  have hrow : rows[i].get "uid" = some (.str uids[i]) := by
    have hi := congrArg (·[i]?) huids
    simpa [List.getElem?_map, List.getElem?_eq_getElem (by omega : i < rows.length),
      List.getElem?_eq_getElem (by omega : i < uids.length)] using hi
  have hrow' := uid_of_reduced (h i _ _ (List.getElem?_eq_getElem (by omega))
    (List.getElem?_eq_getElem hi)) hrow
  simp [hrow', asStr]

/-- The fields of a page that a client reads. -/
structure Shows (page : Json) (matching : List UnreachableSymbol) (offset n : ℕ) (generation : ℕ)
    (token : String) : Prop where
  uids : rowUids page = ((matching.drop offset).take n).map fun symbol => some symbol.uid
  more : page.get "has_more" = some (.bool (decide (offset + n < matching.length)))
  next : offset + n < matching.length → page.get "next_offset" = some (natJson (offset + n))
  generation : page.get "graph_generation" = some (natJson generation)
  token : page.get "page_token" = some (.str token)
  positive : offset < matching.length → 0 < n
  bounded : n ≤ matching.length - offset

lemma get_pagePayload (percent : ℚ → String) (result : DeadCodeResult)
    (manifestLoadError : Option String) (request : DeadCodePageRequest) (generation : ℕ) (token : String) :
    let payload := pagePayload percent result manifestLoadError request generation token
    let matching := result.matching request.minConfidence
    payload.get "unreachable_symbols" = some (.arr (((matching.drop request.offset).take
      request.limit).map fun symbol => if request.concise then symbol.conciseJson else symbol.json)) ∧
    payload.get "has_more" = some (.bool (decide (request.next matching.length < matching.length))) ∧
    payload.get "offset" = some (natJson request.offset) ∧
    payload.get "next_offset" = some (if request.next matching.length < matching.length then
      natJson (request.next matching.length) else .null) ∧
    payload.get "graph_generation" = some (natJson generation) ∧
    payload.get "page_token" = some (.str token) := by
  refine ⟨?_, ?_, ?_, ?_, ?_, ?_⟩ <;>
    simp [pagePayload, get_obj_cons, countJson, natJson]

/-- A short field that is not written over stays as it is. -/
lemma Reduced.get_plain {key k : String} {v v' u : Json} (h : Reduced key v v') (hk : k ∉ writtenKeys)
    (hbudget : k ≠ "output_budget") (hget : v.get k = some u) (hcontainer : isContainer u = false)
    (hshort : ∀ text, u = .str text → strLen text ≤ 128) : v'.get k = some u := by
  obtain ⟨u', hget', hwritten | hred⟩ := h.field hget hbudget
  · exact absurd hwritten.1 hk
  · cases hred with
    | refl => exact hget'
    | text long plain => exact absurd (hshort _ rfl) (Nat.not_le.mpr long)
    | array => cases hcontainer
    | object => cases hcontainer

/-- A delivered page shows the next rows, and its cursor is behind the last of them. -/
lemma Delivered.shows {result : DeadCodeResult} {manifestLoadError : Option String}
    {request : DeadCodePageRequest} {generation : ℕ} {token : String} {page : Json}
    (hrows : result.unreachableSymbols.length < 2 ^ 63) (hlimit : 1 ≤ request.limit)
    (hoffset : request.offset ≤ (result.matching request.minConfidence).length)
    (htoken : isWellFormedPageToken token = true)
    (h : Delivered hash (pagePayload percent result manifestLoadError request generation token) page) :
    ∃ n, Shows page (result.matching request.minConfidence) request.offset n generation token := by
  obtain ⟨content, hcontent, hfinal⟩ := h
  have hred := Finalizes.reduced hfinal
  obtain ⟨hrowsGet, hmoreGet, hoffsetGet, hnextGet, hgenGet, htokenGet⟩ :=
    get_pagePayload percent result manifestLoadError request generation token
  set matching := result.matching request.minConfidence with hmatching
  set rows := ((matching.drop request.offset).take request.limit).map
    fun symbol => if request.concise then symbol.conciseJson else symbol.json with hrowsDef
  have hle : matching.length < 2 ^ 63 :=
    (List.length_filter_le _ _).trans_lt hrows
  have hrowsLen : rows.length = min request.limit (matching.length - request.offset) := by
    simp [hrowsDef]
  have hnext : request.next matching.length = request.offset + rows.length := by
    rw [hrowsLen, DeadCodePageRequest.next]
  rw [hnext] at hmoreGet hnextGet
  have hmem : ("unreachable_symbols", "offset", "next_offset") ∈ cursors := by decide
  -- the array of the page, and the cursor
  obtain ⟨u, hu, hwritten | hredRows⟩ := hred.field (hcontent _ _ hrowsGet) (by decide)
  · exact absurd hwritten.1 (by decide)
  obtain ⟨rows', rfl, hlen, hnonempty, hkept⟩ := hredRows.arr_of_arr
  obtain ⟨hoffset', hcursor⟩ := hred.cursorKept hmem rows rows' request.offset
    (hcontent _ _ hrowsGet) hu (hcontent _ _ hoffsetGet)
    (by rw [hrowsLen]; simp only [u64Max]; omega)
    (by
      rw [hcontent _ _ hnextGet]
      split_ifs
      · exact .inr ⟨_, rfl⟩
      · exact .inl rfl)
  have huids : rows.map (fun row => row.get "uid") =
      (((matching.drop request.offset).take request.limit).map (·.uid)).map
        fun uid => some (.str uid) := by
    rw [hrowsDef, List.map_map, List.map_map]
    refine List.map_congr_left fun symbol _ => ?_
    simp only [Function.comp]
    split_ifs <;> rfl
  refine ⟨rows'.length, ?_, ?_, ?_, ?_, ?_, ?_, ?_⟩
  · rw [rowUids, getD_of_get hu]
    change rows'.map (fun row => (row.get "uid").bind asStr) = _
    rw [rowUids_of_reduced huids hlen hkept, ← List.map_take, List.map_map, List.take_take,
      min_eq_left (hlen.trans (hrowsLen.trans_le (min_le_left _ _)))]
    rfl
  · obtain ⟨hsame, -, hmore⟩ | ⟨hlt, -, hmore⟩ := hcursor
    · rw [hmore _ rfl (hcontent _ _ hmoreGet), hsame]
    · rw [hmore _ rfl (hcontent _ _ hmoreGet)]
      simp only [Option.some.injEq, Json.bool.injEq, true_eq_decide_iff]
      omega
  · intro hmore
    obtain ⟨hsame, hnextSame, -⟩ | ⟨-, hnextCut, -⟩ := hcursor
    · rw [hnextSame, hcontent _ _ hnextGet, ← hsame, if_pos hmore]
    · exact hnextCut
  · exact hred.get_plain (by decide) (by decide) (hcontent _ _ hgenGet) rfl (fun _ h => by cases h)
  · refine hred.get_plain (by decide) (by decide) (hcontent _ _ htokenGet) rfl fun text h => ?_
    obtain rfl := Json.str.inj h
    rw [strLen_hex htoken]
    decide
  · intro hlt
    have hpos : rows ≠ [] := by
      intro hnil
      rw [hnil, List.length_nil] at hrowsLen
      omega
    exact List.length_pos_iff.mpr (hnonempty hpos)
  · omega

/-! ## All pages -/

variable {pop : Population} {minConfidence : DeadCodeConfidence}

def Population.matching (pop : Population) (minConfidence : DeadCodeConfidence) :
    List UnreachableSymbol :=
  pop.result.matching minConfidence

lemma Population.limit_of_serialize {request : DeadCodePageRequest} {payload : Json}
    (h : pop.serialize percent sha256 request = .ok payload) :
    1 ≤ request.limit ∧ request.limit ≤ 1000 := by
  unfold Population.serialize serializeDeadCodePage at h
  by_contra hlimit
  rw [if_pos hlimit] at h
  cases h

/-- A request that is bound to the population is answered with a page. -/
lemma Population.serialize_bound {request : DeadCodePageRequest}
    (hlimit : 1 ≤ request.limit ∧ request.limit ≤ 1000)
    (hbound : request.offset = 0 ∧ request.expectedGeneration = none ∧ request.pageToken = none ∨
      request.expectedGeneration = some pop.generation ∧
        request.pageToken = some (pop.token percent sha256 request.minConfidence))
    (hoffset : request.offset ≤ (pop.matching request.minConfidence).length) :
    pop.serialize percent sha256 request = .ok (pagePayload percent pop.result
      pop.manifestLoadError request pop.generation
        (pop.token percent sha256 request.minConfidence)) := by
  have hgeneration : ¬(request.expectedGeneration.any (· ≠ pop.generation)) = true := by
    obtain ⟨-, hnone, -⟩ | ⟨hsome, -⟩ := hbound
    · simp [hnone]
    · simp [hsome]
  have hcontinued : ¬(0 < request.offset ∧
      (request.expectedGeneration = none ∨ request.pageToken = none)) := by
    obtain ⟨hzero, -, -⟩ | ⟨hgen, htoken⟩ := hbound
    · simp [hzero]
    · simp [hgen, htoken]
  have htoken : ¬(request.pageToken.any
      (· ≠ pop.token percent sha256 request.minConfidence)) = true := by
    obtain ⟨-, -, hnone⟩ | ⟨-, hsome⟩ := hbound
    · simp [hnone]
    · simp [hsome]
  unfold Population.serialize serializeDeadCodePage
  rw [if_neg (not_not_intro hlimit), if_neg hgeneration, if_neg hcontinued]
  exact (if_neg htoken).trans (if_neg (Nat.not_lt.mpr hoffset))

lemma Delivered.page {request : DeadCodePageRequest} {payload page : Json}
    (hserialize : pop.serialize percent sha256 request = .ok payload)
    (hbound : request.offset = 0 ∧ request.expectedGeneration = none ∧ request.pageToken = none ∨
      request.expectedGeneration = some pop.generation ∧
        request.pageToken = some (pop.token percent sha256 request.minConfidence))
    (hoffset : request.offset ≤ (pop.matching request.minConfidence).length)
    (h : Delivered hash payload page) :
    ∃ n, Shows page (pop.matching request.minConfidence) request.offset n pop.generation
      (pop.token percent sha256 request.minConfidence) := by
  have hlimit := pop.limit_of_serialize hserialize
  rw [pop.serialize_bound hlimit hbound hoffset] at hserialize
  obtain rfl := Except.ok.inj hserialize
  exact h.shows pop.rows_lt hlimit.1 hoffset (isWellFormedPageToken_pageToken _ _ _ _ _ _ _)

/-- The request that a page with more rows behind it leads to. -/
lemma Shows.continuation {page : Json} {offset n : ℕ}
    (h : Shows page (pop.matching minConfidence) offset n pop.generation
      (pop.token percent sha256 minConfidence))
    (hmore : offset + n < (pop.matching minConfidence).length) (limit : ℕ) (concise : Bool) :
    continuation page minConfidence limit concise = some ⟨minConfidence, limit, offset + n,
      some pop.generation, some (pop.token percent sha256 minConfidence), concise⟩ := by
  have hle : (pop.matching minConfidence).length < 2 ^ 63 :=
    (List.length_filter_le _ _).trans_lt pop.rows_lt
  have hgeneration := pop.generation_lt
  rw [OutputBudget.continuation, getD_of_get (h.next hmore), getD_of_get h.generation,
    getD_of_get h.token, asU64_natJson (by simp only [u64Max]; omega),
    asU64_natJson (by simp only [u64Max]; omega)]
  rfl

/-- The pages before the last one show what the last one's offset says. -/
lemma Session.invariant {all : List Json} (h : Session hash percent sha256 pop minConfidence all) :
    ∃ (pages : List Json) (page : Json) (offset n : ℕ), all = pages ++ [page] ∧ offset ≤ (pop.matching minConfidence).length ∧
      pages.flatMap rowUids =
        ((pop.matching minConfidence).take offset).map (fun symbol => some symbol.uid) ∧
      Shows page (pop.matching minConfidence) offset n pop.generation
        (pop.token percent sha256 minConfidence) := by
  induction h with
  | @first limit concise payload page hserialize hdelivered =>
    obtain ⟨n, hn⟩ := hdelivered.page hserialize (.inl ⟨rfl, rfl, rfl⟩) (Nat.zero_le _)
    exact ⟨[], page, 0, n, rfl, Nat.zero_le _, rfl, hn⟩
  | @next pages page page' payload limit concise request _ hmore hfollows hserialize hdelivered ih =>
    obtain ⟨pages₁, page₁, offset, n, heq, hoffset, hbefore, hshows⟩ := ih
    obtain ⟨rfl, hpage⟩ := List.append_inj' heq rfl
    obtain rfl := List.head_eq_of_cons_eq hpage
    have hlt : offset + n < (pop.matching minConfidence).length := by
      have hsome := Option.some.inj (hshows.more.symm.trans hmore)
      exact of_decide_eq_true (Json.bool.inj hsome)
    rw [hshows.continuation hlt] at hfollows
    obtain rfl := Option.some.inj hfollows
    obtain ⟨n', hn'⟩ := hdelivered.page hserialize (.inr ⟨rfl, rfl⟩) hlt.le
    refine ⟨pages ++ [page], page', offset + n, n', rfl, hlt.le, ?_, hn'⟩
    rw [List.flatMap_append, hbefore, List.flatMap_singleton, hshows.uids, ← List.map_append,
      List.take_add]

/-- The pages so far, and how the client goes on. -/
lemma Session.shown {pages : List Json} {page : Json}
    (h : Session hash percent sha256 pop minConfidence (pages ++ [page])) :
    ∃ shown ≤ (pop.matching minConfidence).length, (pages ++ [page]).flatMap rowUids =
        ((pop.matching minConfidence).take shown).map (fun symbol => some symbol.uid) ∧
      page.get "has_more" = some (.bool (decide (shown < (pop.matching minConfidence).length))) ∧
      ∀ limit concise, shown < (pop.matching minConfidence).length →
        1 ≤ limit → limit ≤ 1000 → ∃ request payload,
          continuation page minConfidence limit concise = some request ∧ request.offset = shown ∧
          pop.serialize percent sha256 request = .ok payload ∧
          ∀ page', Delivered hash payload page' → rowUids page' ≠ [] := by
  obtain ⟨pages₁, page₁, offset, n, heq, hoffset, hbefore, hshows⟩ := h.invariant
  obtain ⟨rfl, hpage⟩ := List.append_inj' heq rfl
  obtain rfl := List.head_eq_of_cons_eq hpage
  have hbounded := hshows.bounded
  refine ⟨offset + n, by omega, ?_, hshows.more, fun limit concise hlt hpos hmax => ?_⟩
  · rw [List.flatMap_append, hbefore, List.flatMap_singleton, hshows.uids, ← List.map_append,
      List.take_add]
  · have hserialize : pop.serialize percent sha256 ⟨minConfidence, limit, offset + n,
        some pop.generation, some (pop.token percent sha256 minConfidence), concise⟩ = _ :=
      pop.serialize_bound ⟨hpos, hmax⟩ (.inr ⟨rfl, rfl⟩) hlt.le
    refine ⟨_, _, hshows.continuation hlt limit concise, rfl, hserialize, fun page' hdelivered => ?_⟩
    obtain ⟨n', hn'⟩ := hdelivered.page hserialize (.inr ⟨rfl, rfl⟩) hlt.le
    have hpositive := hn'.positive hlt
    intro hnil
    have hlen := congrArg List.length hn'.uids
    rw [hnil, List.length_map, List.length_take, List.length_drop] at hlen
    change 0 = min n' ((pop.matching minConfidence).length - (offset + n)) at hlen
    omega

end Paging

/-- A result that fits is delivered as it is. -/
lemma finalizeStructured_fits {hash : String → String} {result content : Json}
    (hget : result.get "structuredContent" = some content)
    (hlogical : escapedSize content ≤ logicalBytes)
    (hresult : escapedSize (synchronize result) ≤ resultBytes) :
    finalizeStructured hash result = .delivered (synchronize result) := by
  unfold finalizeStructured
  dsimp only
  rw [getD_of_get hget, if_neg (by simp [hlogical])]
  unfold finalizeLoop
  dsimp only
  rw [getD_of_get hget, if_pos hlogical, if_pos ⟨hlogical, hresult⟩]

/-- What `wrap_tool_result` makes of a payload. -/
def wrapped (payload : Json) : Json :=
  .obj [("content", .arr []), ("structuredContent", payload), ("isError", .bool false)]

/-- The size on the wire of a text. -/
def wireSize (text : List Char) : ℕ :=
  byteLen text + 3 * text.countP fun c => c = '\u2028' ∨ c = '\u2029'

lemma byteLen_append (s t : List Char) : byteLen (s ++ t) = byteLen s + byteLen t := by
  induction s with
  | nil => simp [byteLen]
  | cons c s ih => rw [List.cons_append, byteLen, byteLen, ih, Nat.add_assoc]

lemma wireSize_append (s t : List Char) : wireSize (s ++ t) = wireSize s + wireSize t := by
  rw [wireSize, wireSize, wireSize, byteLen_append, List.countP_append]
  omega

lemma wireSize_cons (c : Char) (s : List Char) : wireSize (c :: s) = wireSize [c] + wireSize s :=
  wireSize_append [c] s

lemma wireSize_pos (c : Char) : 1 ≤ wireSize [c] := by
  have hpos := c.utf8Size_pos
  simp only [wireSize, byteLen]
  omega

/-- Escaping takes at most six bytes for one. -/
lemma wireSize_escapeChar (c : Char) : wireSize (escapeChar c) ≤ 6 * wireSize [c] := by
  have hpos := wireSize_pos c
  have hdigit : ∀ n < 16, wireSize [hexDigit n] = 1 := by decide
  by_cases hescaped : c ∈ escaped
  · have hall : escaped.all fun c => wireSize (escapeChar c) ≤ 6 := by decide +kernel
    have hsize : wireSize (escapeChar c) ≤ 6 := of_decide_eq_true (List.all_eq_true.mp hall c hescaped)
    omega
  · rw [escapeChar_of_notMem hescaped]
    split_ifs with hcontrol
    · have hhigh := hdigit (c.toNat / 16) (by omega)
      have hlow := hdigit (c.toNat % 16) (Nat.mod_lt _ (by decide))
      have hprefix : wireSize ['\\', 'u', '0', '0'] = 4 := by decide
      change wireSize (['\\', 'u', '0', '0'] ++
        ([hexDigit (c.toNat / 16)] ++ [hexDigit (c.toNat % 16)])) ≤ _
      rw [wireSize_append, wireSize_append, hprefix, hhigh, hlow]
      omega
    · omega

lemma wireSize_flatMap_escapeChar (s : List Char) :
    wireSize (s.flatMap escapeChar) ≤ 6 * wireSize s := by
  induction s with
  | nil => decide
  | cons c s ih =>
    have hc := wireSize_escapeChar c
    rw [List.flatMap_cons, wireSize_append, wireSize_cons c s]
    omega

/-- The text of a payload is at most six times the payload. -/
lemma escapedSize_wrapped (payload : Json) :
    escapedSize (synchronize (wrapped payload)) ≤ 7 * escapedSize payload + 100 := by
  let front := '{' :: (stringText "content" ++ ':' :: '[' :: '{' :: (stringText "type" ++ ':' ::
    (stringText "text" ++ ',' :: (stringText "text" ++ [':', '"']))))
  let middle := '"' :: '}' :: ']' :: ',' :: (stringText "structuredContent" ++ [':'])
  let back := ',' :: (stringText "isError" ++ ':' :: ("false".toList ++ ['}']))
  have htext : (synchronize (wrapped payload)).text =
      front ++ (payload.text.flatMap escapeChar ++ (middle ++ (payload.text ++ back))) := by
    change (Json.obj [("content", .arr [.obj [("type", .str "text"), ("text", .str payload.toText)]]),
      ("structuredContent", payload), ("isError", .bool false)]).text = _
    have hstring : stringText payload.toText = '"' :: (payload.text.flatMap escapeChar ++ ['"']) := by
      rw [stringText, toText, String.toList_ofList]
    simp only [text, fieldsText, itemsText, hstring, front, middle, back, List.cons_append,
      List.append_assoc, List.nil_append]
  have hfront : wireSize front ≤ 40 := by decide
  have hmiddle : wireSize middle ≤ 30 := by decide
  have hback : wireSize back ≤ 30 := by decide
  have hescaped := wireSize_flatMap_escapeChar payload.text
  change wireSize (synchronize (wrapped payload)).text ≤ 7 * wireSize payload.text + 100
  rw [htext, wireSize_append, wireSize_append, wireSize_append, wireSize_append]
  omega

lemma finalizes_of_fits {hash : String → String} {payload : Json}
    (h : escapedSize payload ≤ 5000) : Finalizes hash payload payload := by
  have hresult := escapedSize_wrapped payload
  refine ⟨wrapped payload, _, rfl, finalizeStructured_fits rfl ?_ ?_, (synchronize_get _).trans rfl⟩
  · exact h.trans (by decide)
  · exact le_trans (hresult.trans (by omega : _ ≤ 35100)) (by decide)

/-- Two rows, which a client reads one at a time. -/
def twoRows : Population where
  result :=
    { unreachableSymbols := [⟨"a", "a", "function", "a.rs", "private", .medium⟩,
        ⟨"b", "b", "function", "b.rs", "public", .low⟩]
      totalSymbols := 2
      reachableSymbols := 0
      deadPercentage := 100
      excludedCount := 0
      undecodableSymbols := 0
      entryPoints := 0
      moduleOwnerRoots := 0
      languagesWithoutEntryPoints := []
      walkRoots := 0
      scope := none }
  manifestLoadError := none
  generation := 1
  databaseIdentity := ""
  rows_lt := by decide
  generation_lt := by decide

def twoRowsRequest : DeadCodePageRequest :=
  ⟨.low, 1, 1, some 1, some (twoRows.token (fun _ => "100.0") (fun _ _ => 0) .low), true⟩

/-- Floats and digests are replaced by constants. -/
def twoRowsPage (limit offset : ℕ) (bound : Bool) : Json :=
  pagePayload (fun _ => "100.0") twoRows.result none
    ⟨.low, limit, offset, if bound then some 1 else none,
      if bound then some (twoRows.token (fun _ => "100.0") (fun _ _ => 0) .low) else none, true⟩ 1
    (twoRows.token (fun _ => "100.0") (fun _ _ => 0) .low)

lemma twoRowsPage_size :
    escapedSize (twoRowsPage 1 0 false) ≤ 5000 ∧ escapedSize (twoRowsPage 1 1 true) ≤ 5000 := by
  decide +kernel

lemma twoRowsPage_delivered (hash : String → String) :
    Delivered hash (twoRowsPage 1 0 false) (twoRowsPage 1 0 false) ∧
      Delivered hash (twoRowsPage 1 1 true) (twoRowsPage 1 1 true) :=
  ⟨⟨_, fun _ _ h => h, .single (finalizes_of_fits twoRowsPage_size.1)⟩,
    ⟨_, fun _ _ h => h, .single (finalizes_of_fits twoRowsPage_size.2)⟩⟩

lemma twoRows_session (hash : String → String) :
    Session hash (fun _ => "100.0") (fun _ _ => 0) twoRows .low
      ([twoRowsPage 1 0 false] ++ [twoRowsPage 1 1 true]) := by
  have hfirst : twoRows.serialize (fun _ => "100.0") (fun _ _ => 0) (firstRequest .low 1 true) =
      .ok (twoRowsPage 1 0 false) :=
    twoRows.serialize_bound ⟨le_rfl, by decide⟩ (.inl ⟨rfl, rfl, rfl⟩) (Nat.zero_le _)
  have hlast : twoRows.serialize (fun _ => "100.0") (fun _ _ => 0) twoRowsRequest =
      .ok (twoRowsPage 1 1 true) :=
    twoRows.serialize_bound ⟨le_rfl, by decide⟩ (.inr ⟨rfl, rfl⟩) (by decide)
  have hpage := get_pagePayload (fun _ => "100.0") twoRows.result none
    (firstRequest .low 1 true) 1 (twoRows.token (fun _ => "100.0") (fun _ _ => 0) .low)
  obtain ⟨-, hmore, -, hnext, hgeneration, htoken⟩ := hpage
  have hfollows : continuation (twoRowsPage 1 0 false) .low 1 true = some twoRowsRequest := by
    change (twoRowsPage 1 0 false).get "next_offset" = some (natJson 1) at hnext
    change (twoRowsPage 1 0 false).get "graph_generation" = _ at hgeneration
    change (twoRowsPage 1 0 false).get "page_token" = _ at htoken
    rw [continuation, getD_of_get hnext, getD_of_get hgeneration, getD_of_get htoken,
      asU64_natJson (by decide)]
    rfl
  have hstart : Session hash (fun _ => "100.0") (fun _ _ => 0) twoRows .low
      ([] ++ [twoRowsPage 1 0 false]) := .first hfirst (twoRowsPage_delivered hash).1
  exact hstart.next hmore hfollows hlast (twoRowsPage_delivered hash).2

end OutputBudget
end Mcp
end NestWeaver
