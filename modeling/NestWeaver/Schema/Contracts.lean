import NestWeaver.Framework.Segments
import NestWeaver.Schema.UidCodec
import Mathlib.Data.List.Forall2

/-!
# The identity of contracts

The UID of an API contract in `crates/nestweaver-schema/src/uid.rs`: the repository, the kind, and for HTTP the verb
and the normal form of the path, for gRPC and GraphQL the id of the operation.

The normal form keeps the segments of a path, and forgets what a parameter is called (`normalizeHttpPath_eq_iff`).
A UID is read back part by part, as long as the verb has no colon (`uid_eq_iff`).
-/

set_option linter.all false

namespace NestWeaver
namespace Uid

open Strings RepoUrl Segments

/-! ## HTTP paths -/

def pathPlaceholder : List Char := ['{', '}']

/-- A parameter slot of OpenAPI, of a template, of a router, or in angle brackets. -/
def isParam (seg : List Char) : Bool :=
  (['{'].isPrefixOf seg && ['}'].isSuffixOf seg) || (['$', '{'].isPrefixOf seg && ['}'].isSuffixOf seg) ||
    [':'].isPrefixOf seg || (['<'].isPrefixOf seg && ['>'].isSuffixOf seg)

def pushSegment (out rawSeg : List Char) : List Char :=
  let seg := trim rawSeg
  if seg = [] then out else out ++ (if isParam seg then pathPlaceholder else seg) ++ ['/']

def httpPath (path : List Char) : List Char :=
  let out := ((trim path).splitOn '/').foldl pushSegment ['/']
  if 1 < out.length then out.dropLast else out

/-- Normalize an HTTP route path. -/
def normalizeHttpPath (path : String) : String := .ofList (httpPath path.toList)

/-! ## Contracts -/

def toAsciiUppercase (s : String) : String := .ofList (s.toList.map Char.toUpper)

/-- The shape of a contract, whatever its repository. -/
def contractShapeKey (kind : String) (verb path operationId : Option String) : String :=
  if kind = "http" then
    "contract:http:" ++ toAsciiUppercase (verb.getD "ANY") ++ ":" ++ (path.map normalizeHttpPath).getD "/"
  else "contract:" ++ kind ++ ":" ++ operationId.getD ""

def scopedContractUid (repoUid kind : String) (verb path operationId : Option String) : String :=
  let shape := contractShapeKey kind verb path operationId
  "contract:" ++ repoUid ++ ":" ++ .ofList (trimStartMatches "contract:".toList shape.toList)

/-- A contract as a specification declares it. -/
structure SpecContract where
  kind : String
  verb : Option String
  path : Option String
  operationId : Option String
  deriving DecidableEq, Repr

def SpecContract.uid (c : SpecContract) (repoUid : String) : String :=
  scopedContractUid repoUid c.kind c.verb c.path c.operationId

/-! ## What is meant -/

/-- The non-empty trimmed segments of a path. -/
def httpSegments (path : String) : List (List Char) := segments '/' isWhiteSpace path.toList

/-- Two segments are the same literal, or both are slots. -/
def SameSegment (seg seg' : List Char) : Prop :=
  isParam seg = false ∧ isParam seg' = false ∧ seg = seg' ∨ isParam seg = true ∧ isParam seg' = true

def contractKinds : List String := ["http", "grpc", "graphql"]

/-- The verb, which is any where none is given. -/
def SpecContract.upperVerb (c : SpecContract) : String := toAsciiUppercase (c.verb.getD "ANY")

def SpecContract.normalPath (c : SpecContract) : String := (c.path.map normalizeHttpPath).getD "/"

def SpecContract.operation (c : SpecContract) : String := c.operationId.getD ""

/-- The kind, and what identifies a contract of this kind. -/
def SameContract (c c' : SpecContract) : Prop :=
  c.kind = c'.kind ∧
    if c.kind = "http" then c.upperVerb = c'.upperVerb ∧ c.normalPath = c'.normalPath
    else c.operation = c'.operation

/-- The verb of an HTTP contract has no colon. -/
def PlainVerb (c : SpecContract) : Prop := c.kind = "http" → ':' ∉ (c.verb.getD "ANY").toList

/-! ## The normal form of a path -/

/-- The segment as the normal form has it. -/
def normalSegment (seg : List Char) : List Char := if isParam seg then pathPlaceholder else seg

lemma foldl_pushSegment (pieces : List (List Char)) (out : List Char) :
    pieces.foldl pushSegment out =
      out ++ ((pieces.map trim).filter fun piece => piece ≠ []).flatMap fun seg => normalSegment seg ++ ['/'] := by
  induction pieces generalizing out with
  | nil => simp
  | cons piece pieces ih =>
    rw [List.foldl_cons, ih, pushSegment, List.map_cons]
    by_cases hpiece : trim piece = []
    · rw [if_pos hpiece, List.filter_cons_of_neg (by simpa using hpiece)]
    · rw [if_neg hpiece, List.filter_cons_of_pos (by simpa using hpiece), List.flatMap_cons, normalSegment]
      simp only [List.append_assoc]

/-- A slash in front and one behind each segment are one before each and one at the end. -/
lemma cons_flatMap_concat (segs : List (List Char)) :
    '/' :: segs.flatMap (fun seg => normalSegment seg ++ ['/']) =
      written '/' (segs.map normalSegment) ++ ['/'] := by
  induction segs with
  | nil => rfl
  | cons seg segs ih =>
    rw [List.flatMap_cons, List.map_cons, written_cons, List.append_assoc, List.singleton_append, ih]
    simp

lemma httpPath_eq (path : String) :
    httpPath path.toList =
      if httpSegments path = [] then ['/'] else written '/' ((httpSegments path).map normalSegment) := by
  have hsegments : (((trim path.toList).splitOn '/').map trim).filter (fun piece => piece ≠ []) =
      httpSegments path := segments_trimmed (by decide) path.toList
  have hout : ((trim path.toList).splitOn '/').foldl pushSegment ['/'] =
      written '/' ((httpSegments path).map normalSegment) ++ ['/'] := by
    rw [foldl_pushSegment, hsegments, List.singleton_append, cons_flatMap_concat]
  rw [httpPath, hout]
  cases httpSegments path with
  | nil => rfl
  | cons seg segs =>
    have hlength : 1 < (written '/' ((seg :: segs).map normalSegment) ++ ['/']).length := by
      rw [List.map_cons, written_cons, List.length_append, List.length_cons]
      simp
    rw [if_pos hlength, List.dropLast_concat, if_neg (List.cons_ne_nil _ _)]

/-! ## Segments of the normal form -/

lemma isParam_pathPlaceholder : isParam pathPlaceholder = true := by decide

lemma normalSegment_normalSegment (seg : List Char) :
    normalSegment (normalSegment seg) = normalSegment seg := by
  unfold normalSegment
  split_ifs <;> rfl

/-- Slots have one normal form, which no literal has. -/
lemma normalSegment_eq_iff {seg seg' : List Char} :
    normalSegment seg = normalSegment seg' ↔ SameSegment seg seg' := by
  rw [normalSegment, normalSegment, SameSegment]
  cases hseg : isParam seg <;> cases hseg' : isParam seg'
  · simp
  · simp only [Bool.false_eq_true, if_false, if_true]
    refine ⟨fun h => ?_, fun h => by simp at h⟩
    rw [h, isParam_pathPlaceholder] at hseg
    cases hseg
  · simp only [Bool.false_eq_true, if_false, if_true]
    refine ⟨fun h => ?_, fun h => by simp at h⟩
    rw [← h, isParam_pathPlaceholder] at hseg'
    cases hseg'
  · simp

lemma isSegment_normalSegment {seg : List Char} (h : IsSegment '/' isWhiteSpace seg) :
    IsSegment '/' isWhiteSpace (normalSegment seg) := by
  rw [normalSegment]
  split_ifs
  · exact ⟨by decide, by decide, by decide⟩
  · exact h

lemma isSegment_normal (path : String) :
    ∀ seg ∈ (httpSegments path).map normalSegment, IsSegment '/' isWhiteSpace seg := by
  intro seg hseg
  obtain ⟨seg, hmem, rfl⟩ := List.mem_map.mp hseg
  exact isSegment_normalSegment (isSegment_of_mem hmem)

/-- The normal form has the normal segments. -/
lemma httpSegments_normalizeHttpPath (path : String) :
    httpSegments (normalizeHttpPath path) = (httpSegments path).map normalSegment := by
  rw [httpSegments, normalizeHttpPath, String.toList_ofList, httpPath_eq]
  split_ifs with hempty
  · rw [hempty]
    decide
  · exact segments_written (isSegment_normal path)

/-- **The normal form is normal.** -/
lemma normalizeHttpPath_idem (path : String) :
    normalizeHttpPath (normalizeHttpPath path) = normalizeHttpPath path := by
  have hpath : (normalizeHttpPath path).toList = httpPath path.toList := String.toList_ofList
  rw [← String.toList_inj, hpath, normalizeHttpPath, String.toList_ofList, httpPath_eq, httpPath_eq,
    httpSegments_normalizeHttpPath, List.map_map]
  have hcomp : normalSegment ∘ normalSegment = normalSegment := funext normalSegment_normalSegment
  simp only [hcomp, List.map_eq_nil_iff]

/-- **Normal forms are equal** if the segments agree one by one. -/
lemma normalizeHttpPath_eq_iff (path path' : String) :
    normalizeHttpPath path = normalizeHttpPath path' ↔
      List.Forall₂ SameSegment (httpSegments path) (httpSegments path') := by
  have hforall : List.Forall₂ SameSegment (httpSegments path) (httpSegments path') ↔
      (httpSegments path).map normalSegment = (httpSegments path').map normalSegment := by
    rw [← List.forall₂_eq_eq_eq, List.forall₂_map_left_iff, List.forall₂_map_right_iff]
    simp only [normalSegment_eq_iff]
  rw [hforall]
  constructor
  · intro h
    rw [← httpSegments_normalizeHttpPath, h, httpSegments_normalizeHttpPath]
  · intro h
    have hnil : httpSegments path = [] ↔ httpSegments path' = [] := by
      rw [← List.map_eq_nil_iff (f := normalSegment), h, List.map_eq_nil_iff]
    rw [normalizeHttpPath, normalizeHttpPath, httpPath_eq, httpPath_eq, h]
    simp only [hnil]

/-! ## Upper case -/

lemma toNat_toUpper (c : Char) :
    c.toUpper.toNat = if 97 ≤ c.toNat ∧ c.toNat ≤ 122 then c.toNat - 32 else c.toNat := by
  have ha : 'a'.val.toNat = 97 := rfl
  have hz : 'z'.val.toNat = 122 := rfl
  have hval : ∀ d : Char, d.toNat = d.val.toNat := fun _ => rfl
  delta Char.toUpper
  split
  · rename_i hlower
    have hlow := UInt32.le_iff_toNat_le.mp hlower.1
    have hhigh := UInt32.le_iff_toNat_le.mp hlower.2
    have hshift : ('A'.val - 'a'.val).toNat = 4294967264 := rfl
    rw [ha] at hlow
    rw [hz] at hhigh
    rw [hval c, if_pos ⟨hlow, hhigh⟩, hval, UInt32.toNat_add, hshift]
    omega
  · rename_i hlower
    rw [if_neg]
    rintro ⟨hlow, hhigh⟩
    rw [← ha] at hlow
    rw [← hz] at hhigh
    exact hlower ⟨UInt32.le_iff_toNat_le.mpr hlow, UInt32.le_iff_toNat_le.mpr hhigh⟩

/-- Upper case adds no character below the letters. -/
lemma eq_of_toUpper_eq {c d : Char} (hlow : d.toNat < 65) (h : c.toUpper = d) : c = d := by
  have heq := toNat_toUpper c
  rw [h] at heq
  split_ifs at heq with hlower
  · omega
  · exact Char.toNat_inj.mp heq.symm

variable {c c' : SpecContract}

lemma colon_not_mem_upperVerb (hverb : PlainVerb c) (hkind : c.kind = "http") :
    ':' ∉ c.upperVerb.toList := by
  rw [SpecContract.upperVerb, toAsciiUppercase, String.toList_ofList]
  intro hmem
  obtain ⟨d, hd, heq⟩ := List.mem_map.mp hmem
  rw [eq_of_toUpper_eq (by decide) heq] at hd
  exact hverb hkind hd

/-! ## The parts of a UID -/

/-- What follows the kind. -/
def SpecContract.tail (c : SpecContract) : String :=
  if c.kind = "http" then c.upperVerb ++ ":" ++ c.normalPath else c.operation

lemma contractShapeKey_eq (c : SpecContract) :
    contractShapeKey c.kind c.verb c.path c.operationId = "contract:" ++ (c.kind ++ ":" ++ c.tail) := by
  rw [contractShapeKey, SpecContract.tail, ← String.toList_inj]
  split_ifs with hkind
  · rw [hkind]
    simp [SpecContract.upperVerb, SpecContract.normalPath]
  · simp [SpecContract.operation]

/-- No kind looks like another shape. -/
lemma not_prefix_kind (hkind : c.kind ∈ contractKinds) (rest : String) :
    ¬"contract:".toList <+: (c.kind ++ ":" ++ rest).toList := by
  rw [String.toList_append, String.toList_append, List.append_assoc]
  have hheads : ∀ kind ∈ contractKinds, ∃ first more, kind.toList = first :: more ∧ first ≠ 'c' := by
    intro kind hkind
    simp only [contractKinds, List.mem_cons, List.not_mem_nil, or_false] at hkind
    obtain rfl | rfl | rfl := hkind
    · exact ⟨'h', "ttp".toList, by decide, by decide⟩
    · exact ⟨'g', "rpc".toList, by decide, by decide⟩
    · exact ⟨'g', "raphql".toList, by decide, by decide⟩
  obtain ⟨first, more, hlist, hfirst⟩ := hheads c.kind hkind
  rw [hlist, List.cons_append]
  intro hprefix
  exact hfirst (List.cons_prefix_cons.mp hprefix).1.symm

lemma uid_eq (hkind : c.kind ∈ contractKinds) (repoUid : String) :
    c.uid repoUid = "contract:" ++ repoUid ++ ":" ++ (c.kind ++ ":" ++ c.tail) := by
  rw [SpecContract.uid, scopedContractUid, contractShapeKey_eq,
    String.toList_append, trimStartMatches_append (by decide) (not_prefix_kind hkind _),
    String.ofList_toList]

section Hash

variable {truncatedHash : String → String} {instanceId url instanceId' url' : String}
  (hhex : ∀ s, isLowercase12Hex (truncatedHash s) = true)

/-- The parts that hold no colon. -/
def uidFront (truncatedHash : String → String) (instanceId url : String) (c : SpecContract) : List String :=
  ["contract", "repo", instanceId, truncatedHash (normalizedRepoKey url), c.kind]

lemma uid_eq_intercalate (hkind : c.kind ∈ contractKinds) :
    c.uid (repoUid truncatedHash instanceId url) =
      ":".intercalate (uidFront truncatedHash instanceId url c ++ [c.tail]) := by
  rw [uid_eq hkind, repoUid, uidFront, ← String.toList_inj]
  simp [String.intercalate_cons_cons]

include hhex in
lemma colon_not_mem_uidFront (hinstance : ValidInstance instanceId) (hkind : c.kind ∈ contractKinds) :
    ∀ part ∈ uidFront truncatedHash instanceId url c, ':' ∉ part.toList := by
  have hkinds : ∀ kind ∈ contractKinds, ':' ∉ kind.toList := by decide
  have hhash := colon_not_mem_hex (hhex (normalizedRepoKey url))
  simp only [uidFront, List.forall_mem_cons, hinstance.noColon, hkinds c.kind hkind, hhash,
    not_false_eq_true, true_and]
  exact ⟨by decide, by decide, fun part hpart => absurd hpart List.not_mem_nil⟩

/-- What follows the kind is read back. -/
lemma tail_eq_iff (hkind : c.kind = c'.kind) (hverb : PlainVerb c) (hverb' : PlainVerb c') :
    c.tail = c'.tail ↔ SameContract c c' := by
  rw [SameContract, SpecContract.tail, SpecContract.tail, ← hkind]
  split_ifs with hhttp
  · constructor
    · intro h
      have hlist := congrArg String.toList h
      rw [String.toList_append, String.toList_append, String.toList_append, String.toList_append,
        List.append_assoc, List.append_assoc] at hlist
      have hcut : splitOnce [':'] (c.upperVerb.toList ++ ':' :: c.normalPath.toList) =
          some (c.upperVerb.toList, c.normalPath.toList) :=
        splitOnce_singleton (colon_not_mem_upperVerb hverb hhttp)
      have hcut' : splitOnce [':'] (c'.upperVerb.toList ++ ':' :: c'.normalPath.toList) =
          some (c'.upperVerb.toList, c'.normalPath.toList) :=
        splitOnce_singleton (colon_not_mem_upperVerb hverb' (hkind ▸ hhttp))
      have hpair := Option.some.inj (hcut.symm.trans ((congrArg (splitOnce [':']) hlist).trans hcut'))
      exact ⟨rfl, String.toList_inj.mp (Prod.mk.inj hpair).1, String.toList_inj.mp (Prod.mk.inj hpair).2⟩
    · rintro ⟨-, hupper, hpath⟩
      rw [hupper, hpath]
  · exact ⟨fun h => ⟨rfl, h⟩, fun h => h.2⟩

include hhex in
/-- **A contract's UID is its identity.** -/
lemma uid_eq_iff (hinstance : ValidInstance instanceId) (hinstance' : ValidInstance instanceId')
    (hkind : c.kind ∈ contractKinds) (hkind' : c'.kind ∈ contractKinds) (hverb : PlainVerb c)
    (hverb' : PlainVerb c') :
    c.uid (repoUid truncatedHash instanceId url) = c'.uid (repoUid truncatedHash instanceId' url') ↔
      repoUid truncatedHash instanceId url = repoUid truncatedHash instanceId' url' ∧ SameContract c c' := by
  constructor
  · intro h
    rw [uid_eq_intercalate hkind, uid_eq_intercalate hkind'] at h
    obtain ⟨hfront, htail⟩ := eq_of_intercalate_concat (colon_not_mem_uidFront hhex hinstance hkind)
      (colon_not_mem_uidFront hhex hinstance' hkind') rfl h
    simp only [uidFront, List.cons.injEq, true_and, and_true] at hfront
    obtain ⟨hinst, hrepo, hkinds⟩ := hfront
    rw [repoUid, repoUid, hinst, hrepo]
    exact ⟨rfl, (tail_eq_iff hkinds hverb hverb').mp htail⟩
  · rintro ⟨hrepo, hsame⟩
    rw [hrepo, uid_eq hkind, uid_eq hkind', hsame.1, (tail_eq_iff hsame.1 hverb hverb').mpr hsame]

end Hash

/-- **The identity of contracts**, for a hash of 12 hex digits.  The normal form of a path is its own.  Two paths
have one normal form exactly if their non-empty trimmed segments agree position by position, as equal literals or as
slots.  The UIDs of two contracts in repositories with valid instances are equal exactly if the repositories, the
kinds, and the upper-cased verbs with the normal paths or the operations are, for verbs without a colon; an absent
verb is any, an absent path the root, and an absent operation empty. -/
theorem contract_identity (truncatedHash : String → String)
    (hhex : ∀ s, isLowercase12Hex (truncatedHash s) = true) :
    (∀ path, normalizeHttpPath (normalizeHttpPath path) = normalizeHttpPath path) ∧
      (∀ path path', normalizeHttpPath path = normalizeHttpPath path' ↔
        List.Forall₂ SameSegment (httpSegments path) (httpSegments path')) ∧
      ∀ (instanceId url instanceId' url' : String) (c c' : SpecContract), ValidInstance instanceId →
        ValidInstance instanceId' → c.kind ∈ contractKinds → c'.kind ∈ contractKinds → PlainVerb c →
        PlainVerb c' →
        (c.uid (repoUid truncatedHash instanceId url) = c'.uid (repoUid truncatedHash instanceId' url') ↔
          repoUid truncatedHash instanceId url = repoUid truncatedHash instanceId' url' ∧
            SameContract c c') := by
  refine ⟨normalizeHttpPath_idem, normalizeHttpPath_eq_iff, ?_⟩
  intro instanceId url instanceId' url' c c' hinstance hinstance' hkind hkind' hverb hverb'
  exact uid_eq_iff hhex hinstance hinstance' hkind hkind' hverb hverb'

/-- A route of one repository in two spellings. -/
theorem contract_identity_route :
    (⟨"http", some "get", some "/users/{id}", none⟩ : SpecContract).uid
        (repoUid (fun _ => "6d5c8a7b6c8c") "local" "https://github.com/o/r") =
      (⟨"http", some "GET", some "users/:userId/", none⟩ : SpecContract).uid
        (repoUid (fun _ => "6d5c8a7b6c8c") "local" "https://github.com/o/r") := by
  have hidentity := contract_identity (fun _ => "6d5c8a7b6c8c") (fun _ => by decide)
  have hlocal : ValidInstance "local" := ⟨by decide, by decide⟩
  have hpath : normalizeHttpPath "/users/{id}" = normalizeHttpPath "users/:userId/" := by
    refine (hidentity.2.1 _ _).mpr ?_
    have hsegments : httpSegments "/users/{id}" = ["users".toList, "{id}".toList] := by decide
    have hsegments' : httpSegments "users/:userId/" = ["users".toList, ":userId".toList] := by decide
    rw [hsegments, hsegments']
    exact .cons (.inl (by decide)) (.cons (.inr (by decide)) .nil)
  refine (hidentity.2.2 _ _ _ _ _ _ hlocal hlocal (by decide) (by decide) (fun _ => by decide)
    (fun _ => by decide)).mpr ⟨rfl, rfl, ?_⟩
  exact ⟨by decide, hpath⟩

/-- A verb with a colon takes a part of the other contract's path. -/
theorem colonVerb_collides :
    (⟨"http", some "GET:/A", some "/b", none⟩ : SpecContract).uid
        (repoUid (fun _ => "6d5c8a7b6c8c") "local" "https://github.com/o/r") =
      (⟨"http", some "GET", some "/A:/b", none⟩ : SpecContract).uid
        (repoUid (fun _ => "6d5c8a7b6c8c") "local" "https://github.com/o/r") ∧
      toAsciiUppercase "GET:/A" ≠ toAsciiUppercase "GET" ∧
      normalizeHttpPath "/b" ≠ normalizeHttpPath "/A:/b" ∧ ValidInstance "local" := by
  refine ⟨?_, by decide, by decide, ⟨by decide, by decide⟩⟩
  rw [uid_eq (by decide), uid_eq (by decide)]
  have htail : (⟨"http", some "GET:/A", some "/b", none⟩ : SpecContract).tail =
      (⟨"http", some "GET", some "/A:/b", none⟩ : SpecContract).tail := by decide
  rw [htail]

end Uid
end NestWeaver
