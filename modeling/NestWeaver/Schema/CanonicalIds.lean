import NestWeaver.Schema.UidCodec

/-!
# Canonical symbol ids beside symbol UIDs

`normalize_search_symbol_canonical_id` of `crates/nestweaver-schema/src/uid.rs`: a canonical id is accepted beside
the UID of a symbol if it carries the hash of the symbol's repository, and some cut of it at a `#` gives a path and
a name with the hashes of the UID.

A path may end where a name begins with a `#`, and the other way round.  So what is accepted is the symbol's path
and name as one text (`accepted_iff`), from whichever path and name it was minted.
-/

set_option linter.all false

namespace NestWeaver
namespace Uid

open Strings RepoUrl

/-! ## Search identities -/

inductive SearchEntityUidKind
  | note | tag | symbol
  deriving DecidableEq, Repr

/-- The UID without its instance, for the kinds that a search finds. -/
def normalizeSearchEntityUid (uid : String) : Option (SearchEntityUidKind × String) :=
  match parseCanonicalEntityUid uid with
  | some (.note _ vault note) => some (.note, "note:vlt:" ++ vault ++ ":" ++ note)
  | some (.tag _ vault name) => some (.tag, "tag:vlt:" ++ vault ++ ":" ++ name)
  | some (.symbol _ repo file name line) =>
    some (.symbol, "sym:repo:" ++ repo ++ ":" ++ file ++ ":" ++ name ++ ":" ++ line)
  | _ => none

section Normalize

variable (truncatedHash : String → String)

/-- Both sides of the cut have the hashes of the UID. -/
def matchesPathAndName (fileHash nameHash : String) (filePath name : List Char) : Bool :=
  filePath ≠ [] && name ≠ [] && truncatedHash (.ofList filePath) == fileHash &&
    truncatedHash (.ofList name) == nameHash

/-- The key of a canonical id beside the hashes of a symbol UID. -/
def canonicalIdKey (repoHash fileHash nameHash canonicalId : String) : Option String := do
  let (canonicalRepoHash, remainder) ← splitOnce [':'] canonicalId.toList
  let (pathAndName, scopeHash) ← rsplitOnce ':' remainder
  if String.ofList canonicalRepoHash ≠ repoHash ∨
      ¬isLowercase12Hex (.ofList canonicalRepoHash) ∨ ¬isLowercase12Hex (.ofList scopeHash) then none
  else if (splitsAt '#' pathAndName).any fun (filePath, name) =>
      matchesPathAndName truncatedHash fileHash nameHash filePath name then
    some ("sym-canonical:" ++ canonicalId)
  else none

def normalizeSearchSymbolCanonicalId (symbolUid canonicalId : String) : Option String :=
  match normalizeSearchEntityUid symbolUid with
  | some (.symbol, normalizedUid) =>
    match (normalizedUid.toList.splitOn ':').map String.ofList with
    | ["sym", "repo", repoHash, fileHash, nameHash, _line] =>
      canonicalIdKey truncatedHash repoHash fileHash nameHash canonicalId
    | _ => none
  | _ => none

end Normalize

/-- The hash tells the repositories apart, and the path and the name from what the other id can be cut into. -/
structure Distinguishes (truncatedHash : String → String) (url filePath name url' filePath' name' : String) :
    Prop where
  repo : NoCollision truncatedHash (normalizedRepoKey url) (normalizedRepoKey url')
  cuts : ∀ front back, filePath'.toList ++ '#' :: name'.toList = front ++ '#' :: back →
    NoCollision truncatedHash (.ofList front) filePath ∧ NoCollision truncatedHash (.ofList back) name

section Symbols

variable {truncatedHash : String → String} {instanceId url filePath name : String} {line : UInt32}
  {url' filePath' name' scopeChain' repoHash fileHash nameHash canonicalId key : String}

/-! ## The ids are taken apart -/

/-- A key spells the canonical id. -/
lemma eq_of_canonicalIdKey (h : canonicalIdKey truncatedHash repoHash fileHash nameHash canonicalId = some key) :
    key = "sym-canonical:" ++ canonicalId := by
  obtain ⟨_, -, h⟩ := Option.bind_eq_some_iff.mp h
  obtain ⟨_, -, h⟩ := Option.bind_eq_some_iff.mp h
  dsimp only at h
  split_ifs at h
  exact (Option.some.inj h).symm

lemma eq_of_normalizeSearchSymbolCanonicalId {uid : String}
    (h : normalizeSearchSymbolCanonicalId truncatedHash uid canonicalId = some key) :
    key = "sym-canonical:" ++ canonicalId := by
  rw [normalizeSearchSymbolCanonicalId] at h
  split at h
  · split at h
    · exact eq_of_canonicalIdKey h
    · cases h
  · cases h

variable (hhex : ∀ s, isLowercase12Hex (truncatedHash s) = true)

include hhex in
lemma normalizeSearchEntityUid_symbolUid (hinstance : ValidInstance instanceId) :
    normalizeSearchEntityUid
        (symbolUid truncatedHash (repoUid truncatedHash instanceId url) filePath name line) =
      some (.symbol, ":".intercalate ["sym", "repo", truncatedHash (normalizedRepoKey url),
        truncatedHash filePath, truncatedHash name, line.toNat.repr]) := by
  let symbol := Entity.symbol instanceId url filePath name line
  have hvalid : ValidInstance symbol.instanceId := hinstance
  have hparse : parseCanonicalEntityUid (symbol.uid truncatedHash id) =
      some (symbol.components truncatedHash id) := (parseCanonicalEntityUid_uid hhex hvalid).mpr trivial
  rw [Entity.uid] at hparse
  rw [normalizeSearchEntityUid, hparse]
  refine congrArg (fun key => some (SearchEntityUidKind.symbol, key)) ?_
  rw [← String.toList_inj]
  simp [String.intercalate_cons_cons]

include hhex in
/-- The instance and the line do not matter. -/
lemma normalizeSearchSymbolCanonicalId_symbolUid (hinstance : ValidInstance instanceId) (canonicalId : String) :
    normalizeSearchSymbolCanonicalId truncatedHash
        (symbolUid truncatedHash (repoUid truncatedHash instanceId url) filePath name line) canonicalId =
      canonicalIdKey truncatedHash (truncatedHash (normalizedRepoKey url)) (truncatedHash filePath)
        (truncatedHash name) canonicalId := by
  have hparts : ∀ part ∈ ["sym", "repo", truncatedHash (normalizedRepoKey url), truncatedHash filePath,
      truncatedHash name, line.toNat.repr], ':' ∉ part.toList := by
    have hhash := fun text => colon_not_mem_hex (hhex text)
    have hline := colon_not_mem_line (isCanonicalU32_repr line)
    simp only [List.forall_mem_cons, hhash, hline, not_false_eq_true, true_and]
    exact ⟨by decide, by decide, fun part hpart => absurd hpart List.not_mem_nil⟩
  rw [normalizeSearchSymbolCanonicalId, normalizeSearchEntityUid_symbolUid hhex hinstance]
  dsimp only
  rw [splitOn_intercalate_colon (List.cons_ne_nil _ _) hparts]
  rfl

include hhex in
/-- A minted id is cut at its first and its last colon. -/
lemma canonicalIdKey_canonicalSymbolId :
    canonicalIdKey truncatedHash repoHash fileHash nameHash
        (canonicalSymbolId truncatedHash url' filePath' name' scopeChain') =
      if truncatedHash (normalizedRepoKey url') = repoHash ∧
          ∃ cut ∈ splitsAt '#' (filePath'.toList ++ '#' :: name'.toList),
            matchesPathAndName truncatedHash fileHash nameHash cut.1 cut.2 then
        some ("sym-canonical:" ++ canonicalSymbolId truncatedHash url' filePath' name' scopeChain')
      else none := by
  have hscope : isLowercase12Hex (scopeHash truncatedHash scopeChain' name') = true := by
    rw [scopeHash]
    split_ifs <;> exact hhex _
  have hid : (canonicalSymbolId truncatedHash url' filePath' name' scopeChain').toList =
      (truncatedHash (normalizedRepoKey url')).toList ++ ':' :: ((filePath'.toList ++ '#' :: name'.toList) ++
        ':' :: (scopeHash truncatedHash scopeChain' name').toList) := by
    simp [canonicalSymbolId]
  rw [canonicalIdKey, hid, splitOnce_singleton (colon_not_mem_hex (hhex _))]
  simp only [Option.bind_eq_bind, Option.bind_some]
  rw [rsplitOnce_append (colon_not_mem_hex hscope)]
  simp only [Option.bind_some, String.ofList_toList, hhex, hscope, not_true_eq_false, or_false]
  by_cases hrepo : truncatedHash (normalizedRepoKey url') = repoHash
  · simp only [hrepo, List.any_eq_true, true_and]
    simp
  · simp [hrepo]

/-! ## What is accepted -/

lemma matchesPathAndName_iff {front back : List Char} :
    matchesPathAndName truncatedHash fileHash nameHash front back = true ↔
      front ≠ [] ∧ back ≠ [] ∧ truncatedHash (.ofList front) = fileHash ∧
        truncatedHash (.ofList back) = nameHash := by
  simp [matchesPathAndName, and_assoc]

lemma matches_self (hpath : filePath ≠ "") (hname : name ≠ "") :
    matchesPathAndName truncatedHash (truncatedHash filePath) (truncatedHash name) filePath.toList
      name.toList = true := by
  rw [matchesPathAndName_iff, String.ofList_toList, String.ofList_toList, Ne, Ne,
    String.toList_eq_nil_iff, String.toList_eq_nil_iff]
  exact ⟨hpath, hname, rfl, rfl⟩

lemma toList_path_append (filePath name : String) :
    (filePath ++ "#" ++ name).toList = filePath.toList ++ '#' :: name.toList := by simp

/-- A cut with the hashes of the symbol is the cut between its path and its name. -/
lemma exists_cut_iff (hpath : filePath ≠ "") (hname : name ≠ "")
    (hcuts : ∀ front back, filePath'.toList ++ '#' :: name'.toList = front ++ '#' :: back →
      NoCollision truncatedHash (.ofList front) filePath ∧ NoCollision truncatedHash (.ofList back) name) :
    (∃ cut ∈ splitsAt '#' (filePath'.toList ++ '#' :: name'.toList),
        matchesPathAndName truncatedHash (truncatedHash filePath) (truncatedHash name) cut.1 cut.2) ↔
      filePath ++ "#" ++ name = filePath' ++ "#" ++ name' := by
  rw [← String.toList_inj, toList_path_append, toList_path_append]
  constructor
  · rintro ⟨⟨front, back⟩, hcut, hmatch⟩
    have htext := mem_splitsAt.mp hcut
    obtain ⟨-, -, hfront, hback⟩ := matchesPathAndName_iff.mp hmatch
    obtain ⟨hfrontEq, hbackEq⟩ := hcuts front back htext
    rw [htext, ← hfrontEq hfront, ← hbackEq hback, String.toList_ofList, String.toList_ofList]
  · intro htext
    exact ⟨(filePath.toList, name.toList), mem_splitsAt.mpr htext.symm, matches_self hpath hname⟩

include hhex in
/-- **What is accepted** has the symbol's repository, and its path and name as one text. -/
lemma accepted_iff (hinstance : ValidInstance instanceId) (hpath : filePath ≠ "") (hname : name ≠ "")
    (hdist : Distinguishes truncatedHash url filePath name url' filePath' name') :
    (normalizeSearchSymbolCanonicalId truncatedHash
        (symbolUid truncatedHash (repoUid truncatedHash instanceId url) filePath name line)
        (canonicalSymbolId truncatedHash url' filePath' name' scopeChain')).isSome ↔
      normalizedRepoKey url = normalizedRepoKey url' ∧
        filePath ++ "#" ++ name = filePath' ++ "#" ++ name' := by
  have hrepo : truncatedHash (normalizedRepoKey url') = truncatedHash (normalizedRepoKey url) ↔
      normalizedRepoKey url = normalizedRepoKey url' :=
    ⟨fun h => hdist.repo h.symm, fun h => by rw [h]⟩
  rw [normalizeSearchSymbolCanonicalId_symbolUid hhex hinstance, canonicalIdKey_canonicalSymbolId hhex,
    ← hrepo, ← exists_cut_iff hpath hname hdist.cuts]
  split_ifs with h
  · exact ⟨fun _ => h, fun _ => rfl⟩
  · exact ⟨fun hsome => absurd hsome (by simp), fun hagree => absurd hagree h⟩

include hhex in
/-- The symbol's own id needs nothing of the hash but its form. -/
lemma accepts_own (hinstance : ValidInstance instanceId) (hpath : filePath ≠ "") (hname : name ≠ "")
    (scopeChain : String) :
    normalizeSearchSymbolCanonicalId truncatedHash
        (symbolUid truncatedHash (repoUid truncatedHash instanceId url) filePath name line)
        (canonicalSymbolId truncatedHash url filePath name scopeChain) =
      some ("sym-canonical:" ++ canonicalSymbolId truncatedHash url filePath name scopeChain) := by
  rw [normalizeSearchSymbolCanonicalId_symbolUid hhex hinstance, canonicalIdKey_canonicalSymbolId hhex]
  exact if_pos ⟨rfl, (filePath.toList, name.toList), mem_splitsAt.mpr rfl, matches_self hpath hname⟩

/-- One text is one path and one name where no `#` stands in the paths, or none in the names. -/
lemma eq_of_path_append_eq (htext : filePath ++ "#" ++ name = filePath' ++ "#" ++ name')
    (hplain : '#' ∉ filePath.toList ∧ '#' ∉ filePath'.toList ∨ '#' ∉ name.toList ∧ '#' ∉ name'.toList) :
    filePath = filePath' ∧ name = name' := by
  rw [← String.toList_inj, toList_path_append, toList_path_append] at htext
  rw [← String.toList_inj, ← String.toList_inj]
  obtain ⟨hpath, hpath'⟩ | ⟨hname, hname'⟩ := hplain
  · have hcut : splitOnce ['#'] (filePath.toList ++ '#' :: name.toList) = some (filePath.toList, name.toList) :=
      splitOnce_singleton hpath
    rw [htext, splitOnce_singleton hpath', Option.some_inj, Prod.mk.injEq] at hcut
    exact ⟨hcut.1.symm, hcut.2.symm⟩
  · have hcut : rsplitOnce '#' (filePath.toList ++ '#' :: name.toList) = some (filePath.toList, name.toList) :=
      rsplitOnce_append hname
    rw [htext, rsplitOnce_append hname', Option.some_inj, Prod.mk.injEq] at hcut
    exact ⟨hcut.1.symm, hcut.2.symm⟩

end Symbols

/-- **Canonical ids beside symbol UIDs**, for a hash of 12 hex digits.  The id minted from a symbol's own inputs is
accepted.  An id minted from other inputs is accepted exactly if the repositories agree and the paths and names
agree as one text, as far as the hash does not collide; so the paths and the names agree unless a `#` stands in
both a path and a name.  Equal keys come from equal canonical ids, and neither the instance nor the line of the UID
matters. -/
theorem canonicalIds_accepted (truncatedHash : String → String)
    (hhex : ∀ s, isLowercase12Hex (truncatedHash s) = true) :
    (∀ instanceId url filePath name line scopeChain, ValidInstance instanceId → filePath ≠ "" → name ≠ "" →
      normalizeSearchSymbolCanonicalId truncatedHash
          (symbolUid truncatedHash (repoUid truncatedHash instanceId url) filePath name line)
          (canonicalSymbolId truncatedHash url filePath name scopeChain) =
        some ("sym-canonical:" ++ canonicalSymbolId truncatedHash url filePath name scopeChain)) ∧
      (∀ instanceId url filePath name line url' filePath' name' scopeChain', ValidInstance instanceId →
        filePath ≠ "" → name ≠ "" → Distinguishes truncatedHash url filePath name url' filePath' name' →
        ((normalizeSearchSymbolCanonicalId truncatedHash
            (symbolUid truncatedHash (repoUid truncatedHash instanceId url) filePath name line)
            (canonicalSymbolId truncatedHash url' filePath' name' scopeChain')).isSome ↔
          normalizedRepoKey url = normalizedRepoKey url' ∧
            filePath ++ "#" ++ name = filePath' ++ "#" ++ name') ∧
        (filePath ++ "#" ++ name = filePath' ++ "#" ++ name' →
          '#' ∉ filePath.toList ∧ '#' ∉ filePath'.toList ∨ '#' ∉ name.toList ∧ '#' ∉ name'.toList →
            filePath = filePath' ∧ name = name')) ∧
      (∀ uid uid' canonicalId canonicalId' key,
        normalizeSearchSymbolCanonicalId truncatedHash uid canonicalId = some key →
        normalizeSearchSymbolCanonicalId truncatedHash uid' canonicalId' = some key →
        canonicalId = canonicalId') ∧
      ∀ instanceId instanceId' url filePath name line line' canonicalId, ValidInstance instanceId →
        ValidInstance instanceId' →
        normalizeSearchSymbolCanonicalId truncatedHash
            (symbolUid truncatedHash (repoUid truncatedHash instanceId url) filePath name line) canonicalId =
          normalizeSearchSymbolCanonicalId truncatedHash
            (symbolUid truncatedHash (repoUid truncatedHash instanceId' url) filePath name line')
            canonicalId := by
  refine ⟨?_, ?_, ?_, ?_⟩
  · intro instanceId url filePath name line scopeChain hinstance hpath hname
    exact accepts_own hhex hinstance hpath hname scopeChain
  · intro instanceId url filePath name line url' filePath' name' scopeChain' hinstance hpath hname hdist
    exact ⟨accepted_iff hhex hinstance hpath hname hdist, eq_of_path_append_eq⟩
  · intro uid uid' canonicalId canonicalId' key h h'
    have hkeys := (eq_of_normalizeSearchSymbolCanonicalId h).symm.trans
      (eq_of_normalizeSearchSymbolCanonicalId h')
    rw [← String.toList_inj, String.toList_append, String.toList_append] at hkeys
    exact String.toList_inj.mp (List.append_cancel_left hkeys)
  · intro instanceId instanceId' url filePath name line line' canonicalId hinstance hinstance'
    rw [normalizeSearchSymbolCanonicalId_symbolUid hhex hinstance,
      normalizeSearchSymbolCanonicalId_symbolUid hhex hinstance']

/-- The hashes of a repository and of the parts of `a#b#c`. -/
def partHashes (text : String) : String :=
  if text = "github.com/o/r" then "6d5c8a7b6c8c" else if text = "a#b" then "8187fc8f7f00"
  else if text = "c" then "2e7d2c03a950" else if text = "a" then "ca978112ca1b"
  else if text = "b#c" then "32c513c1e031" else "000000000000"

lemma partHashes_hex (text : String) : isLowercase12Hex (partHashes text) = true := by
  rw [partHashes]
  split_ifs <;> decide

/-- The parts are told apart from each other. -/
lemma distinguishes_parts {filePath name filePath' name' : String} (hpath : filePath ∈ ["a", "a#b"])
    (hname : name ∈ ["c", "b#c"]) (htext : filePath' ++ "#" ++ name' = "a#b#c") :
    Distinguishes partHashes "https://github.com/o/r" filePath name "https://github.com/o/r" filePath' name' := by
  refine ⟨fun _ => rfl, fun front back hcut => ?_⟩
  rw [← toList_path_append, htext] at hcut
  have hmem : (front, back) ∈ [("a".toList, "b#c".toList), ("a#b".toList, "c".toList)] := by
    have hsplits : splitsAt '#' "a#b#c".toList = [("a".toList, "b#c".toList), ("a#b".toList, "c".toList)] := by
      decide
    rw [← hsplits]
    exact mem_splitsAt.mpr hcut
  have hall : ∀ cut ∈ [("a".toList, "b#c".toList), ("a#b".toList, "c".toList)], ∀ filePath ∈ ["a", "a#b"],
      ∀ name ∈ ["c", "b#c"], NoCollision partHashes (.ofList cut.1) filePath ∧
        NoCollision partHashes (.ofList cut.2) name := by decide
  exact hall _ hmem filePath hpath name hname

/-- A symbol is accepted with its own id, and not with that of another path. -/
theorem canonicalIds_accepted_parts :
    normalizeSearchSymbolCanonicalId partHashes
        (symbolUid partHashes (repoUid partHashes "local" "https://github.com/o/r") "a" "c" 7)
        (canonicalSymbolId partHashes "https://github.com/o/r" "a" "c" "") =
      some ("sym-canonical:" ++ canonicalSymbolId partHashes "https://github.com/o/r" "a" "c" "") ∧
      ¬(normalizeSearchSymbolCanonicalId partHashes
        (symbolUid partHashes (repoUid partHashes "local" "https://github.com/o/r") "a" "c" 7)
        (canonicalSymbolId partHashes "https://github.com/o/r" "a#b" "c" "")).isSome := by
  have haccepted := canonicalIds_accepted partHashes partHashes_hex
  have hlocal : ValidInstance "local" := ⟨by decide, by decide⟩
  refine ⟨haccepted.1 "local" _ "a" "c" 7 "" hlocal (by decide) (by decide), fun hsome => ?_⟩
  have hdist : Distinguishes partHashes "https://github.com/o/r" "a" "c" "https://github.com/o/r" "a#b" "c" :=
    distinguishes_parts (by decide) (by decide) (by decide)
  have hagree := ((haccepted.2.1 "local" _ "a" "c" 7 _ "a#b" "c" "" hlocal (by decide) (by decide)
    hdist).1.mp hsome).2
  exact absurd hagree (by decide)

/-- The symbol `c` of `a#b` is accepted with the id of the symbol `b#c` of `a`. -/
theorem ambiguous_accepted :
    ValidInstance "local" ∧
      Distinguishes partHashes "https://github.com/o/r" "a#b" "c" "https://github.com/o/r" "a" "b#c" ∧
      (normalizeSearchSymbolCanonicalId partHashes
        (symbolUid partHashes (repoUid partHashes "local" "https://github.com/o/r") "a#b" "c" 7)
        (canonicalSymbolId partHashes "https://github.com/o/r" "a" "b#c" "")).isSome ∧
      "a#b" ≠ "a" ∧ "c" ≠ "b#c" := by
  have hlocal : ValidInstance "local" := ⟨by decide, by decide⟩
  have hdist : Distinguishes partHashes "https://github.com/o/r" "a#b" "c" "https://github.com/o/r" "a" "b#c" :=
    distinguishes_parts (by decide) (by decide) (by decide)
  refine ⟨hlocal, hdist, ?_, by decide, by decide⟩
  exact (accepted_iff partHashes_hex hlocal (by decide) (by decide) hdist).mpr ⟨rfl, by decide⟩

end Uid
end NestWeaver
