import NestWeaver.Framework.Iteration
import NestWeaver.Framework.Postings
import NestWeaver.Store.Shard.RefreshExact

/-!
# The change of the postings

`crates/nestweaver-store/src/regex_index.rs`: how many postings a refresh adds and removes is counted from
the changed documents only where the shard is changed (`changedPostingDelta`), and else from the whole
index (`postingDelta`).

Both count the pairs that the shard of the candidates has and the old one has not, and the other way
round, and neither subtraction underflows (`maintained_exact`).
-/

set_option linter.all false

namespace NestWeaver
namespace RegexRefresh

open Shard (ShardMetadata)
open Postings

/-! ## The code -/

inductive DeltaError
  | query (message : String)
  /-- A subtraction of unsigned numbers goes below zero. -/
  | underflow
  deriving DecidableEq, Repr

/-- How the elements of a set are visited: each once. -/
structure SetIteration (α : Type) where
  visit : Finset α → List α
  nodup (s : Finset α) : (visit s).Nodup
  mem_visit {s : Finset α} {a : α} : a ∈ visit s ↔ a ∈ s

/-- `desired`, by identity. -/
def desiredTrigrams (documents : List ShardDocument) (identity : DocumentIdentity) :
    Option (Finset (List Char)) :=
  (lastOf ShardDocument.identity documents identity).map (·.trigrams)

section Code

variable (order : SetIteration (List Char))

/-- One stored trigram of a document that changes. -/
def countStored (desired : Option (Finset (List Char))) (counts : ℕ × ℕ) (trigram : List Char) :
    Except DeltaError (ℕ × ℕ) :=
  let (added, removed) := counts
  if desired.any (trigram ∈ ·) then
    if added = 0 then .error .underflow else .ok (added - 1, removed)
  else .ok (added, removed + 1)

def countChanged (g : Generation) (changed : List ShardDocument) (counts : ℕ × ℕ)
    (identity : DocumentIdentity) : Except DeltaError (ℕ × ℕ) :=
  let hits := (g.documents.filter (·.identity = identity)).take 2
  if 1 < hits.length then .error (.query "duplicate live regex document identity")
  else
    hits.foldlM (fun counts d =>
      (order.visit d.trigrams).foldlM (countStored (desiredTrigrams changed identity)) counts) counts

/-- The postings that the changes add and remove. -/
def changedPostingDelta (current : Option Generation) (changed : List ShardDocument)
    (deleted : List DocumentIdentity) : Except DeltaError (ℕ × ℕ) :=
  let added := (changed.map fun d => d.trigrams.card).sum
  match current with
  | none => .ok (added, 0)
  | some g =>
    (changed.map ShardDocument.identity ++ deleted).foldlM (countChanged order g changed) (added, 0)

/-- One posting. -/
def countPosting (desired : DocumentIdentity → Option (Finset (List Char))) (term : List Char)
    (counts : ℕ × ℕ) (d : ShardDocument) : ℕ × ℕ :=
  let (previous, shared) := counts
  (previous + 1, if (desired d.identity).any (term ∈ ·) then shared + 1 else shared)

def segmentTerms (segment : List ShardDocument) : Finset (List Char) :=
  segment.foldr (fun d terms => d.trigrams ∪ terms) ∅

/-- The terms of a segment, and the postings of each of them. -/
def countSegment (desired : DocumentIdentity → Option (Finset (List Char))) (counts : ℕ × ℕ)
    (segment : List ShardDocument) : ℕ × ℕ :=
  (order.visit (segmentTerms segment)).foldl (fun counts term =>
    (segment.filter (term ∈ ·.trigrams)).foldl (countPosting desired term) counts) counts

/-- The postings that the documents add to the live ones in the segments, and those they remove.
`lost` says that there was a shard and none is selected. -/
def postingDelta (segments : Option (List (List ShardDocument))) (lost : Bool)
    (documents : List ShardDocument) : Except DeltaError (ℕ × ℕ) :=
  let desiredCount := (documents.map fun d => d.trigrams.card).sum
  match segments with
  | none =>
    if lost then .error (.query "prior regex shard has no selected generation")
    else .ok (desiredCount, 0)
  | some segments =>
    let (previous, shared) :=
      segments.foldl (countSegment order (desiredTrigrams documents)) (0, 0)
    if desiredCount < shared then .error (.query "duplicate live regex posting identity")
    else if previous < shared then .error .underflow
    else .ok (desiredCount - shared, previous - shared)

end Code

/-- The hashes under the identities. -/
def storedHashes (g : Generation) : List (DocumentIdentity × String) :=
  g.documents.map fun d => (d.identity, d.textHash)

/-- The documents whose hash has changed. -/
def changedDocuments (H : Hashing) (hashes : List (DocumentIdentity × String))
    (candidates : List Candidate) : List ShardDocument :=
  (candidates.filter fun c =>
    hashes.lookup c.identity ≠ H.desiredDocuments candidates c.identity).map (H.document candidates)

/-- The identities that are no longer desired. -/
def deletedUids (H : Hashing) (hashes : List (DocumentIdentity × String))
    (candidates : List Candidate) : List DocumentIdentity :=
  (hashes.map Prod.fst).filter fun identity => (H.desiredDocuments candidates identity).isNone

/-- What a refresh brings. -/
structure Update where
  forceFull : Bool
  identity : PublicationIdentity
  graphGeneration : ℕ
  epoch : ℕ
  candidates : List Candidate
  deriving DecidableEq

namespace Update

variable (H : Hashing) (scopeUid : String) (u : Update)

/-- The refresh has read the metadata of the selected shard. -/
def plan (current : Option Generation) : Plan :=
  ⟨u.forceFull, current.map (·.metadata), none, u.graphGeneration, u.epoch⟩

def prepare (current : Option Generation) : Option Generation :=
  (u.plan current).prepare H u.identity scopeUid u.candidates (documentHashes current)
    u.graphGeneration current

/-- Only the changed documents are written. -/
def canUpdate (current : Option Generation) : Bool :=
  !u.forceFull && (documentHashes current).isSome &&
    current.any fun g => compatibleBase u.identity g.metadata

/-- The hashes of the selected shard. -/
def hashes (current : Option Generation) : List (DocumentIdentity × String) :=
  ((documentHashes current).bind id).getD []

/-- `posting_delta`, by which of the two it is counted. -/
def delta (order : SetIteration (List Char)) (current : Option Generation)
    (segments : Option (List (List ShardDocument))) (lost : Bool) : Except DeltaError (ℕ × ℕ) :=
  if u.canUpdate current then
    changedPostingDelta order current (changedDocuments H (hashes current) u.candidates)
      (deletedUids H (hashes current) u.candidates)
  else postingDelta order segments lost (H.documents u.candidates)

end Update

/-- The selected shard after the refreshes.  A refresh that fails leaves the shard. -/
def maintained (H : Hashing) (scopeUid : String) (updates : List Update) : Option Generation :=
  updates.foldl (fun current u => (u.prepare H scopeUid current).or current) none

/-! ## Counting -/

section Counting

variable {order : SetIteration (List Char)} {a r : ℕ}

lemma countP_visit (s : Finset (List Char)) (p : List Char → Prop) [DecidablePred p] :
    (order.visit s).countP p = (s.filter p).card := by
  have hset : ((order.visit s).filter p).toFinset = s.filter p := by
    ext t
    simp [order.mem_visit]
  rw [← hset, List.toFinset_card_of_nodup ((order.nodup s).filter _), List.countP_eq_length_filter]

/-- The stored trigrams of one document. -/
lemma foldlM_countStored (desired : Option (Finset (List Char))) {trigrams : List (List Char)}
    (hle : trigrams.countP (· ∈ desired.getD ∅) ≤ a) :
    trigrams.foldlM (countStored desired) (a, r) =
      .ok (a - trigrams.countP (· ∈ desired.getD ∅), r + trigrams.countP (· ∉ desired.getD ∅)) := by
  have hany : ∀ t, desired.any (t ∈ ·) = true ↔ t ∈ desired.getD ∅ := by
    intro t
    cases desired with
    | none => simp
    | some s => simp
  induction trigrams generalizing a r with
  | nil => simp [List.foldlM_nil, pure, Except.pure]
  | cons t trigrams ih =>
    rw [List.countP_cons] at hle
    rw [List.foldlM_cons, countStored]
    by_cases ht : t ∈ desired.getD ∅
    · simp only [ht, decide_true, if_true] at hle
      have ha : a ≠ 0 := by omega
      rw [if_pos ((hany t).mpr ht), if_neg ha]
      refine (ih (by omega)).trans ?_
      rw [List.countP_cons_of_pos (by simpa using ht), List.countP_cons_of_neg (by simpa using ht)]
      congr 2
      omega
    · simp only [ht, decide_false, Bool.false_eq_true, if_false, Nat.add_zero] at hle
      rw [if_neg fun h => ht ((hany t).mp h)]
      refine (ih hle).trans ?_
      rw [List.countP_cons_of_neg (by simpa using ht), List.countP_cons_of_pos (by simpa using ht)]
      congr 2
      omega

/-- The trigrams under an identity. -/
abbrev trigramsOf (documents : List ShardDocument) (identity : DocumentIdentity) :
    Finset (List Char) :=
  content ShardDocument.identity ShardDocument.trigrams documents identity

/-- The postings of a shard. -/
abbrev postingsOf (documents : List ShardDocument) : Finset (DocumentIdentity × List Char) :=
  pairs ShardDocument.identity ShardDocument.trigrams documents

/-- One identity: what is stored and desired is not added, and what is stored only is removed. -/
lemma countChanged_eq {g : Generation} (hkeyed : Keyed ShardDocument.identity g.documents)
    {changed : List ShardDocument} {identity : DocumentIdentity} {desired : Finset (List Char)}
    (hdesired : (desiredTrigrams changed identity).getD ∅ = desired)
    (hle : (trigramsOf g.documents identity ∩ desired).card ≤ a) :
    countChanged order g changed (a, r) identity =
      .ok (a - (trigramsOf g.documents identity ∩ desired).card,
        r + (trigramsOf g.documents identity \ desired).card) := by
  rw [countChanged]
  obtain ⟨hnil, hcontent⟩ | ⟨d, hone, hcontent⟩ :=
    filter_key ShardDocument.trigrams hkeyed identity
  · rw [trigramsOf, hcontent, hnil]
    simp [pure, Except.pure]
  · rw [trigramsOf, hcontent] at hle ⊢
    rw [hone]
    have hstored : ∀ p : List Char → Prop, [DecidablePred p] →
        (order.visit d.trigrams).countP p = (d.trigrams.filter p).card :=
      fun p _ => countP_visit d.trigrams p
    have hinter : (order.visit d.trigrams).countP (· ∈ (desiredTrigrams changed identity).getD ∅) =
        (d.trigrams ∩ desired).card := by
      rw [hstored, hdesired, Finset.filter_mem_eq_inter]
    have hsdiff : (order.visit d.trigrams).countP (· ∉ (desiredTrigrams changed identity).getD ∅) =
        (d.trigrams \ desired).card := by
      rw [hstored, hdesired, Finset.filter_notMem_eq_sdiff]
    have hloop := foldlM_countStored (r := r) (desiredTrigrams changed identity) (hinter.trans_le hle)
    rw [hinter, hsdiff] at hloop
    simp only [List.take_succ_cons, List.take_nil, List.length_singleton, Nat.lt_irrefl, if_false,
      List.foldlM_cons, List.foldlM_nil]
    rw [hloop]
    rfl

/-- **The changed documents.**  As long as what is to be subtracted is there, nothing underflows. -/
lemma foldlM_countChanged {g : Generation} (hkeyed : Keyed ShardDocument.identity g.documents)
    {changed : List ShardDocument} {identities : List DocumentIdentity}
    (desired : DocumentIdentity → Finset (List Char))
    (hdesired : ∀ k ∈ identities, (desiredTrigrams changed k).getD ∅ = desired k)
    (hle : (identities.map fun k => (trigramsOf g.documents k ∩ desired k).card).sum ≤ a) :
    identities.foldlM (countChanged order g changed) (a, r) =
      .ok (a - (identities.map fun k => (trigramsOf g.documents k ∩ desired k).card).sum,
        r + (identities.map fun k => (trigramsOf g.documents k \ desired k).card).sum) := by
  induction identities generalizing a r with
  | nil => simp [pure, Except.pure]
  | cons k identities ih =>
    rw [List.map_cons, List.sum_cons] at hle
    rw [List.foldlM_cons, countChanged_eq hkeyed (hdesired k List.mem_cons_self) (by omega)]
    refine (ih (fun k' hk' => hdesired k' (List.mem_cons_of_mem _ hk')) (by omega)).trans ?_
    rw [List.map_cons, List.sum_cons, List.map_cons, List.sum_cons]
    congr 2
    · omega
    · omega

end Counting

/-! ## Whole shards -/

section Whole

variable {order : SetIteration (List Char)}

lemma getD_desiredTrigrams {documents : List ShardDocument}
    (hkeyed : Keyed ShardDocument.identity documents) (identity : DocumentIdentity) :
    (desiredTrigrams documents identity).getD ∅ = trigramsOf documents identity := by
  rw [desiredTrigrams]
  cases hlast : lastOf ShardDocument.identity documents identity with
  | none =>
    rw [lastOf_eq_none] at hlast
    refine (content_of_notMem fun hmem => ?_).symm
    obtain ⟨d, hd, heq⟩ := List.mem_map.mp hmem
    exact hlast d hd heq
  | some d =>
    obtain ⟨hd, rfl⟩ := mem_of_lastOf hlast
    have hcontent : trigramsOf documents d.identity = d.trigrams := content_of_mem hkeyed hd
    exact hcontent.symm

lemma foldl_countPosting (desired : DocumentIdentity → Option (Finset (List Char))) (term : List Char)
    (documents : List ShardDocument) (counts : ℕ × ℕ) :
    documents.foldl (countPosting desired term) counts =
      (counts.1 + documents.length,
        counts.2 + documents.countP fun d => term ∈ (desired d.identity).getD ∅) := by
  induction documents generalizing counts with
  | nil => rfl
  | cons d documents ih =>
    have hany : (desired d.identity).any (term ∈ ·) = true ↔ term ∈ (desired d.identity).getD ∅ := by
      cases desired d.identity with
      | none => simp
      | some s => simp
    rw [List.foldl_cons, ih, countPosting, List.length_cons, List.countP_cons]
    by_cases h : term ∈ (desired d.identity).getD ∅
    · simp only [hany.mpr h, h, decide_true, if_true]
      congr 1
      · omega
      · omega
    · have hnot : ¬(desired d.identity).any (term ∈ ·) = true := fun h' => h (hany.mp h')
      simp only [if_neg hnot, h, decide_false, Bool.false_eq_true, if_false]
      congr 1
      omega

lemma mem_segmentTerms {segment : List ShardDocument} {d : ShardDocument} (hd : d ∈ segment)
    {t : List Char} (ht : t ∈ d.trigrams) : t ∈ segmentTerms segment := by
  induction segment with
  | nil => cases hd
  | cons d' segment ih =>
    rw [segmentTerms, List.foldr_cons, Finset.mem_union]
    obtain rfl | hd := List.mem_cons.mp hd
    · exact .inl ht
    · exact .inr (ih hd)

/-- The postings of a segment, and those that are desired. -/
lemma countSegment_eq (desired : DocumentIdentity → Option (Finset (List Char)))
    (segment : List ShardDocument) (counts : ℕ × ℕ) :
    countSegment order desired counts segment =
      (counts.1 + (segment.map fun d => d.trigrams.card).sum,
        counts.2 + (segment.map fun d =>
          (d.trigrams.filter (· ∈ (desired d.identity).getD ∅)).card).sum) := by
  have hall : ∀ d ∈ segment, ∀ t ∈ d.trigrams, t ∈ order.visit (segmentTerms segment) :=
    fun d hd t ht => order.mem_visit.mpr (mem_segmentTerms hd ht)
  have hprevious := sum_countP_terms (order.nodup _) hall fun _ _ => True
  have hshared := sum_countP_terms (order.nodup _) hall
    fun d t => t ∈ (desired d.identity).getD ∅
  simp only [and_true, Finset.filter_true] at hprevious
  rw [← hprevious, ← hshared, countSegment]
  clear hall hprevious hshared
  induction order.visit (segmentTerms segment) generalizing counts with
  | nil => rfl
  | cons t terms ih =>
    rw [List.foldl_cons, ih, foldl_countPosting, ← List.countP_eq_length_filter, List.countP_filter,
      List.map_cons, List.sum_cons, List.map_cons, List.sum_cons]
    simp only [Bool.decide_and, Bool.and_comm, Nat.add_assoc]

lemma foldl_countSegment (desired : DocumentIdentity → Option (Finset (List Char)))
    (segments : List (List ShardDocument)) (counts : ℕ × ℕ) :
    segments.foldl (countSegment order desired) counts =
      (counts.1 + (segments.flatten.map fun d => d.trigrams.card).sum,
        counts.2 + (segments.flatten.map fun d =>
          (d.trigrams.filter (· ∈ (desired d.identity).getD ∅)).card).sum) := by
  induction segments generalizing counts with
  | nil => rfl
  | cons segment segments ih =>
    rw [List.foldl_cons, ih, countSegment_eq, List.flatten_cons, List.map_append, List.sum_append,
      List.map_append, List.sum_append]
    simp only [Nat.add_assoc]

/-- **The whole index.**  However the documents lie in segments, the postings that are in one of the two
only are counted. -/
lemma postingDelta_eq {segments : List (List ShardDocument)} {old documents : List ShardDocument}
    (hold : Keyed ShardDocument.identity old) (hnew : Keyed ShardDocument.identity documents)
    (hsegments : segments.flatten.Perm old) :
    postingDelta order (some segments) false documents =
      .ok ((postingsOf documents \ postingsOf old).card, (postingsOf old \ postingsOf documents).card) := by
  have hprevious : (segments.flatten.map fun d => d.trigrams.card).sum = (postingsOf old).card := by
    rw [card_pairs hold]
    exact (hsegments.map _).sum_eq
  have hshared : (segments.flatten.map fun d => (d.trigrams.filter
      (· ∈ (desiredTrigrams documents d.identity).getD ∅)).card).sum =
      (postingsOf documents ∩ postingsOf old).card := by
    rw [card_inter_pairs hold hnew]
    simp only [getD_desiredTrigrams hnew]
    exact (hsegments.map _).sum_eq
  have hdesired : (documents.map fun d => d.trigrams.card).sum = (postingsOf documents).card :=
    (card_pairs hnew).symm
  have hle : (postingsOf documents ∩ postingsOf old).card ≤ (postingsOf documents).card :=
    Finset.card_le_card Finset.inter_subset_left
  have hle' : (postingsOf documents ∩ postingsOf old).card ≤ (postingsOf old).card :=
    Finset.card_le_card Finset.inter_subset_right
  rw [postingDelta, foldl_countSegment]
  simp only [Nat.zero_add, hprevious, hshared, hdesired]
  rw [if_neg (by omega), if_neg (by omega), Finset.card_sdiff, Finset.card_sdiff,
    Finset.inter_comm (postingsOf old)]

end Whole

/-! ## The changes of a refresh -/

/-- No two candidates have one identity. -/
abbrev KeyedCandidates (candidates : List Candidate) : Prop := Keyed Candidate.identity candidates

section Changes

variable {H : Hashing} {candidates oldCandidates : List Candidate}
  {hashes : List (DocumentIdentity × String)} {identity : DocumentIdentity}

lemma map_identity_documents (H : Hashing) (candidates : List Candidate) :
    (H.documents candidates).map ShardDocument.identity = candidates.map Candidate.identity := by
  rw [Hashing.documents, List.map_map]
  rfl

lemma keyed_documents (H : Hashing) (h : KeyedCandidates candidates) :
    Keyed ShardDocument.identity (H.documents candidates) := by
  rw [Keyed, map_identity_documents]
  exact h

lemma mem_changedDocuments : identity ∈ (changedDocuments H hashes candidates).map ShardDocument.identity ↔
    identity ∈ candidates.map Candidate.identity ∧
      hashes.lookup identity ≠ H.desiredDocuments candidates identity := by
  rw [changedDocuments, List.map_map]
  constructor
  · intro h
    obtain ⟨c, hc, rfl⟩ := List.mem_map.mp h
    obtain ⟨hmem, hchanged⟩ := List.mem_filter.mp hc
    exact ⟨List.mem_map_of_mem hmem, of_decide_eq_true hchanged⟩
  · rintro ⟨h, hchanged⟩
    obtain ⟨c, hc, rfl⟩ := List.mem_map.mp h
    exact List.mem_map.mpr ⟨c, List.mem_filter.mpr ⟨hc, decide_eq_true hchanged⟩, rfl⟩

lemma desiredDocuments_isNone :
    (H.desiredDocuments candidates identity).isNone ↔ identity ∉ candidates.map Candidate.identity := by
  rw [Hashing.desiredDocuments, Option.isNone_map, Option.isNone_iff_eq_none, lastOf_eq_none]
  constructor
  · intro h hmem
    obtain ⟨c, hc, heq⟩ := List.mem_map.mp hmem
    exact h c hc heq
  · intro h c hc heq
    exact h (List.mem_map.mpr ⟨c, hc, heq⟩)

lemma mem_deletedUids : identity ∈ deletedUids H hashes candidates ↔
    identity ∈ hashes.map Prod.fst ∧ identity ∉ candidates.map Candidate.identity := by
  rw [deletedUids, List.mem_filter, desiredDocuments_isNone]

lemma mem_of_lookup {hash : String} (h : hashes.lookup identity = some hash) :
    (identity, hash) ∈ hashes := by
  obtain ⟨front, back, rfl, -⟩ := List.lookup_eq_some_iff.mp h
  exact List.mem_append_right _ List.mem_cons_self

/-- The identities that are looked at. -/
lemma nodup_touched (hkeyed : KeyedCandidates candidates) (hhashes : (hashes.map Prod.fst).Nodup) :
    ((changedDocuments H hashes candidates).map ShardDocument.identity ++ deletedUids H hashes candidates).Nodup := by
  rw [List.nodup_append]
  refine ⟨?_, hhashes.filter _, ?_⟩
  · rw [changedDocuments, List.map_map]
    exact hkeyed.sublist (List.filter_sublist.map _)
  · rintro k hk _ hdeleted rfl
    exact (mem_deletedUids.mp hdeleted).2 (mem_changedDocuments.mp hk).1

variable {g : Generation} (hfree : H.CollisionFree) (hnew : KeyedCandidates candidates)
  (hold : KeyedCandidates oldCandidates) (hg : g.documents.Perm (H.documents oldCandidates))

include hold hg in
lemma keyed_generation : Keyed ShardDocument.identity g.documents :=
  ((hg.map _).nodup_iff).mpr (keyed_documents H hold)

include hfree hnew hold hg in
/-- A document that is not looked at is what it is to be. -/
lemma content_of_untouched
    (h : identity ∉ (changedDocuments H (storedHashes g) candidates).map ShardDocument.identity ++
      deletedUids H (storedHashes g) candidates) :
    trigramsOf (H.documents candidates) identity = trigramsOf g.documents identity := by
  have hstored : ∀ d ∈ g.documents, (d.identity, d.textHash) ∈ storedHashes g :=
    fun d hd => List.mem_map_of_mem hd
  have hkeyedG := keyed_generation hold hg
  rw [List.mem_append, not_or] at h
  by_cases hk : identity ∈ candidates.map Candidate.identity
  · have hsame : (storedHashes g).lookup identity = H.desiredDocuments candidates identity := by
      by_contra hchanged
      exact h.1 (mem_changedDocuments.mpr ⟨hk, hchanged⟩)
    obtain ⟨c, hlast⟩ : ∃ c, lastOf Candidate.identity candidates identity = some c := by
      obtain ⟨c, hc, rfl⟩ := List.mem_map.mp hk
      exact Option.isSome_iff_exists.mp (lastOf_isSome_of_mem Candidate.identity hc)
    obtain ⟨hdocument, hidentity, -⟩ := mem_documents_of_last (H := H) hlast
    rw [Hashing.desiredDocuments, hlast] at hsame
    -- the stored document has the hash of the candidate
    obtain ⟨d, hd, heq⟩ := List.mem_map.mp (mem_of_lookup hsame)
    obtain ⟨rfl, hhash⟩ := Prod.mk.inj heq
    obtain ⟨c', hlast', hd'⟩ := exists_last_of_mem (hg.mem_iff.mp hd) (keyed_documents H hold)
    obtain ⟨-, -, htextHash⟩ := mem_documents_of_last (H := H) hlast'
    rw [hd', htextHash] at hhash
    have hequal : H.document candidates c = d :=
      (document_eq_of_hash hfree hlast hlast' hhash.symm).trans hd'.symm
    have hnewContent : trigramsOf (H.documents candidates) (H.document candidates c).identity = _ :=
      content_of_mem (keyed_documents H hnew) hdocument
    have holdContent : trigramsOf g.documents d.identity = d.trigrams := content_of_mem hkeyedG hd
    rw [hidentity] at hnewContent
    rw [hnewContent, holdContent, hequal]
  · have hnone : identity ∉ g.documents.map ShardDocument.identity := by
      intro hmem
      obtain ⟨d, hd, rfl⟩ := List.mem_map.mp hmem
      exact h.2 (mem_deletedUids.mpr ⟨List.mem_map_of_mem (hstored d hd), hk⟩)
    rw [← map_identity_documents H] at hk
    rw [trigramsOf, trigramsOf, content_of_notMem hk, content_of_notMem hnone]

end Changes

section Refresh

variable {H : Hashing} {candidates oldCandidates : List Candidate} {g : Generation}
  {order : SetIteration (List Char)} (hfree : H.CollisionFree) (hnew : KeyedCandidates candidates)
  (hold : KeyedCandidates oldCandidates) (hg : g.documents.Perm (H.documents oldCandidates))

lemma sum_map_add_sdiff {κ : Type} (ks : List κ) (f f' : κ → Finset (List Char)) :
    (ks.map fun k => (f k).card).sum =
      (ks.map fun k => (f' k ∩ f k).card).sum + (ks.map fun k => (f k \ f' k).card).sum := by
  rw [← List.sum_map_add]
  refine congrArg List.sum (List.map_congr_left fun k _ => ?_)
  rw [Finset.inter_comm, Finset.card_inter_add_card_sdiff]

include hfree hnew hold hg in
/-- **The changed documents are enough.**  What they add and remove is what the whole shard does. -/
lemma changedPostingDelta_eq :
    changedPostingDelta order (some g) (changedDocuments H (storedHashes g) candidates)
      (deletedUids H (storedHashes g) candidates) =
      .ok ((postingsOf (H.documents candidates) \ postingsOf g.documents).card,
        (postingsOf g.documents \ postingsOf (H.documents candidates)).card) := by
  have hkeyed := keyed_generation hold hg
  have hkeyedNew := keyed_documents H hnew
  have hstored : (storedHashes g).map Prod.fst = g.documents.map ShardDocument.identity := by
    rw [storedHashes, List.map_map]
    rfl
  set changed := changedDocuments H (storedHashes g) candidates with hchanged
  set ks := changed.map ShardDocument.identity ++ deletedUids H (storedHashes g) candidates with hks
  have hnodup : ks.Nodup := nodup_touched hnew (by rw [hstored]; exact hkeyed)
  have hkeyedChanged : Keyed ShardDocument.identity changed := (List.nodup_append.mp hnodup).1
  have hmem : ∀ d ∈ changed, d ∈ H.documents candidates := by
    intro d hd
    obtain ⟨c, hc, rfl⟩ := List.mem_map.mp hd
    exact List.mem_map_of_mem (List.mem_filter.mp hc).1
  -- under what is looked at, the desired trigrams are those of the candidates
  have hdesired : ∀ k ∈ ks, (desiredTrigrams changed k).getD ∅ =
      trigramsOf (H.documents candidates) k := by
    intro k hk
    rw [getD_desiredTrigrams hkeyedChanged]
    obtain hk | hk := List.mem_append.mp hk
    · obtain ⟨d, hd, rfl⟩ := List.mem_map.mp hk
      have hleft : trigramsOf changed d.identity = d.trigrams := content_of_mem hkeyedChanged hd
      have hright : trigramsOf (H.documents candidates) d.identity = d.trigrams :=
        content_of_mem hkeyedNew (hmem d hd)
      rw [hleft, hright]
    · have hnot := (mem_deletedUids.mp hk).2
      have hnotChanged : k ∉ changed.map ShardDocument.identity :=
        fun h => hnot (mem_changedDocuments.mp h).1
      rw [← map_identity_documents H] at hnot
      rw [trigramsOf, trigramsOf, content_of_notMem hnot, content_of_notMem hnotChanged]
  have hadded : (changed.map fun d => d.trigrams.card).sum =
      (ks.map fun k => (trigramsOf (H.documents candidates) k).card).sum := by
    rw [hks, List.map_append, List.sum_append, List.map_map]
    have hdeleted : ((deletedUids H (storedHashes g) candidates).map fun k =>
        (trigramsOf (H.documents candidates) k).card).sum = 0 := by
      refine List.sum_eq_zero fun n hn => ?_
      obtain ⟨k, hk, rfl⟩ := List.mem_map.mp hn
      have hnot := (mem_deletedUids.mp hk).2
      rw [← map_identity_documents H] at hnot
      rw [trigramsOf, content_of_notMem hnot]
      rfl
    rw [hdeleted, Nat.add_zero]
    refine congrArg List.sum (List.map_congr_left fun d hd => ?_)
    have hcontent : trigramsOf (H.documents candidates) d.identity = d.trigrams :=
      content_of_mem hkeyedNew (hmem d hd)
    rw [Function.comp_apply, hcontent]
  have hsplit := sum_map_add_sdiff ks (trigramsOf (H.documents candidates)) (trigramsOf g.documents)
  have htouched : ∀ k, trigramsOf (H.documents candidates) k ≠ trigramsOf g.documents k → k ∈ ks := by
    intro k hk
    by_contra hnot
    exact hk (content_of_untouched hfree hnew hold hg hnot)
  rw [changedPostingDelta, foldlM_countChanged hkeyed _ hdesired (by omega), card_sdiff_pairs hkeyed hkeyedNew hnodup htouched,
    card_sdiff_pairs hkeyedNew hkeyed hnodup fun k hk => htouched k (Ne.symm hk)]
  congr 2
  · exact Nat.sub_eq_of_eq_add' (hadded.trans hsplit)
  · exact Nat.zero_add _

include hold hg in
/-- As many documents are kept as are not changed. -/
lemma length_applyDelta (hnew : KeyedCandidates candidates) :
    (applyDelta g.documents (changedDocuments H (storedHashes g) candidates)
      (deletedUids H (storedHashes g) candidates)).length = candidates.length := by
  have hkeyed := keyed_generation hold hg
  set changed := changedDocuments H (storedHashes g) candidates with hchanged
  set kept := g.documents.filter fun d =>
    d.identity ∉ deletedUids H (storedHashes g) candidates ++ changed.map ShardDocument.identity
  have hperm : (kept.map ShardDocument.identity ++ changed.map ShardDocument.identity).Perm
      (candidates.map Candidate.identity) := by
    have hkeptNodup : (kept.map ShardDocument.identity).Nodup :=
      hkeyed.sublist (List.filter_sublist.map _)
    have hchangedNodup : (changed.map ShardDocument.identity).Nodup := by
      rw [hchanged, changedDocuments, List.map_map]
      exact hnew.sublist (List.filter_sublist.map _)
    have hkept : ∀ k, k ∈ kept.map ShardDocument.identity ↔
        k ∈ g.documents.map ShardDocument.identity ∧
          k ∉ deletedUids H (storedHashes g) candidates ∧ k ∉ changed.map ShardDocument.identity := by
      intro k
      constructor
      · intro hk
        obtain ⟨d, hd, rfl⟩ := List.mem_map.mp hk
        obtain ⟨hmem, hnot⟩ := List.mem_filter.mp hd
        rw [decide_eq_true_eq, List.mem_append, not_or] at hnot
        exact ⟨List.mem_map_of_mem hmem, hnot⟩
      · rintro ⟨hk, hnot⟩
        obtain ⟨d, hd, rfl⟩ := List.mem_map.mp hk
        refine List.mem_map_of_mem (List.mem_filter.mpr ⟨hd, ?_⟩)
        rw [decide_eq_true_eq, List.mem_append, not_or]
        exact hnot
    refine (List.perm_ext_iff_of_nodup ?_ hnew).mpr fun k => ?_
    · rw [List.nodup_append]
      refine ⟨hkeptNodup, hchangedNodup, ?_⟩
      rintro k hk _ hk' rfl
      exact ((hkept k).mp hk).2.2 hk'
    · have hstored : k ∈ (storedHashes g).map Prod.fst ↔ k ∈ g.documents.map ShardDocument.identity := by
        rw [storedHashes, List.map_map]
        rfl
      rw [List.mem_append, hkept, mem_deletedUids, hstored]
      constructor
      · rintro (⟨hk, hdeleted, -⟩ | hk)
        · by_contra hnot
          exact hdeleted ⟨hk, hnot⟩
        · exact (mem_changedDocuments.mp hk).1
      · intro hk
        by_cases hc : k ∈ changed.map ShardDocument.identity
        · exact .inr hc
        · refine .inl ⟨?_, fun hdeleted => hdeleted.2 hk, hc⟩
          have hsame : (storedHashes g).lookup k = H.desiredDocuments candidates k := by
            by_contra hne
            exact hc (mem_changedDocuments.mpr ⟨hk, hne⟩)
          obtain ⟨hash, hhash⟩ : ∃ hash, H.desiredDocuments candidates k = some hash := by
            rw [← Option.isSome_iff_exists, ← Option.not_isNone, Bool.not_eq_true', ← Bool.not_eq_true,
              desiredDocuments_isNone]
            exact not_not.mpr hk
          rw [← hstored]
          exact List.mem_map_of_mem (mem_of_lookup (hsame.trans hhash))
  have hlength := hperm.length_eq
  rw [List.length_append, List.length_map, List.length_map, List.length_map] at hlength
  rw [applyDelta, List.length_append]
  exact hlength

end Refresh
/-! ## Refreshes -/

namespace Update

variable {H : Hashing} {scopeUid : String} {u : Update} {current : Option Generation}
  {oldCandidates : List Candidate} {g : Generation}

/-- What a shard of candidates is to be. -/
def metadata (H : Hashing) (scopeUid : String) (u : Update) (current : Option Generation) : ShardMetadata :=
  (u.plan current).metadata H u.identity scopeUid u.candidates u.graphGeneration

lemma prepareReplaceScope_documents :
    prepareReplaceScope (u.metadata H scopeUid current) (H.documents u.candidates) =
      some ⟨u.metadata H scopeUid current, H.documents u.candidates⟩ := by
  have hlength : (H.documents u.candidates).length = u.candidates.length := List.length_map ..
  rw [prepareReplaceScope, if_neg]
  rintro (h | h | h)
  · exact h rfl
  · exact h rfl
  · exact h hlength.symm

lemma prepare_of_full (h : u.canUpdate current = false) :
    u.prepare H scopeUid current =
      prepareReplaceScope (u.metadata H scopeUid current) (H.documents u.candidates) := by
  unfold prepare Plan.prepare
  cases current with
  | none => rfl
  | some g =>
    cases hhashes : documentHashes (some g) with
    | none => rfl
    | some hashes =>
      simp only [canUpdate, hhashes, Option.isSome_some, Bool.and_true, Option.any_some] at h
      simp only [plan, Option.map_some, h, Bool.false_eq_true, if_false]
      rfl

lemma canUpdate_eq_true (h : u.canUpdate current = true) :
    ∃ g, current = some g ∧ documentHashes (some g) = some (some (storedHashes g)) := by
  simp only [canUpdate, Bool.and_eq_true, Option.any_eq_true] at h
  obtain ⟨⟨-, hread⟩, g, rfl, -⟩ := h
  refine ⟨g, rfl, ?_⟩
  obtain ⟨hashes, hhashes⟩ := Option.isSome_iff_exists.mp hread
  cases hashes with
  | none =>
    rw [documentHashes] at hhashes
    split_ifs at hhashes
    simp at hhashes
  | some hashes =>
    rw [hhashes, (documentHashes_eq_some hhashes).2]
    rfl

lemma prepare_of_canUpdate (h : u.canUpdate (some g) = true) :
    u.prepare H scopeUid (some g) =
      prepareUpdateScope (some g) g.metadata (u.metadata H scopeUid (some g))
        (changedDocuments H (storedHashes g) u.candidates) (deletedUids H (storedHashes g) u.candidates) := by
  obtain ⟨g', heq, hhashes⟩ := canUpdate_eq_true h
  obtain rfl := Option.some.inj heq
  simp only [canUpdate, hhashes, Option.isSome_some, Bool.and_true, Option.any_some] at h
  unfold prepare Plan.prepare
  rw [hhashes]
  simp only [plan, Option.map_some, h, if_true]
  rfl

/-- **One refresh.**  It goes through, and leaves the shard that a new one would be. -/
lemma prepare_eq (hfree : H.CollisionFree) (hnew : KeyedCandidates u.candidates)
    (hcurrent : ∀ g, current = some g → g.metadata.scopeUid = scopeUid ∧
      ∃ old, KeyedCandidates old ∧ g.documents.Perm (H.documents old)) :
    ∃ g, u.prepare H scopeUid current = some g ∧ g.metadata = u.metadata H scopeUid current ∧
      g.documents.Perm (H.documents u.candidates) := by
  cases hcan : u.canUpdate current with
  | false =>
    refine ⟨_, (prepare_of_full hcan).trans prepareReplaceScope_documents, rfl, .refl _⟩
  | true =>
    obtain ⟨g, rfl, hhashes⟩ := canUpdate_eq_true hcan
    obtain ⟨huid, old, hold, hg⟩ := hcurrent g rfl
    rw [prepare_of_canUpdate hcan]
    have hlength := length_applyDelta hold hg hnew
    have hupdate : prepareUpdateScope (some g) g.metadata (u.metadata H scopeUid (some g))
        (changedDocuments H (storedHashes g) u.candidates) (deletedUids H (storedHashes g) u.candidates) =
        some ⟨u.metadata H scopeUid (some g), applyDelta g.documents
          (changedDocuments H (storedHashes g) u.candidates)
          (deletedUids H (storedHashes g) u.candidates)⟩ := by
      rw [prepareUpdateScope, if_neg]
      · exact if_neg fun h => h.elim (fun h => h rfl) fun h => h hlength
      · rintro (h | h | h)
        · exact h rfl
        · exact h rfl
        · exact h huid.symm
    refine ⟨_, hupdate, rfl, ?_⟩
    exact perm_of_update hfree (keyed_generation hold hg) hg (.refl _) rfl hupdate

end Update

/-- **Any sequence of refreshes.**  The selected shard is one that could have been built anew. -/
lemma maintained_spec {H : Hashing} (hfree : H.CollisionFree) (scopeUid : String) {updates : List Update}
    (hkeyed : ∀ u ∈ updates, KeyedCandidates u.candidates) :
    ∀ g, maintained H scopeUid updates = some g → g.metadata.scopeUid = scopeUid ∧
      ∃ old, KeyedCandidates old ∧ g.documents.Perm (H.documents old) := by
  induction updates using List.reverseRecOn with
  | nil =>
    intro g hg
    cases hg
  | append_singleton updates u ih =>
    have hold := ih fun u' hu' => hkeyed u' (List.mem_append_left _ hu')
    have hnew := hkeyed u (List.mem_append_right _ List.mem_cons_self)
    obtain ⟨g', hprepare, hmetadata, hperm⟩ := Update.prepare_eq hfree hnew hold
    intro g hg
    rw [maintained, List.foldl_concat] at hg
    change (u.prepare H scopeUid (maintained H scopeUid updates)).or _ = some g at hg
    rw [hprepare] at hg
    obtain rfl := Option.some.inj hg
    exact ⟨by rw [hmetadata]; rfl, u.candidates, hnew, hperm⟩

/-! ## The main result -/

/-- The documents of a shard, if there is one. -/
def documentsOf (current : Option Generation) : List ShardDocument :=
  (current.map (·.documents)).getD []

/-- **The change of the postings is exact.**  After any sequence of refreshes, whatever the next one desires:
the changed documents and the whole index give the same counts, which are those of the postings that one of
the two shards has and the other has not, and no subtraction underflows; the shard that is left has the
documents of one that is built anew; and in no term does the document frequency lose more than it had. -/
theorem maintained_exact (H : Hashing) (hfree : H.CollisionFree) (scopeUid : String)
    (order : SetIteration (List Char)) (updates : List Update) (u : Update)
    (hkeyed : ∀ u' ∈ updates ++ [u], KeyedCandidates u'.candidates) :
    let current := maintained H scopeUid updates
    let old := documentsOf current
    let desired := H.documents u.candidates
    let gained := postingsOf desired \ postingsOf old
    let lost := postingsOf old \ postingsOf desired
    (∀ segments : List (List ShardDocument), segments.flatten.Perm old →
      u.delta H order current (current.map fun _ => segments) false = .ok (gained.card, lost.card) ∧
      postingDelta order (current.map fun _ => segments) false desired = .ok (gained.card, lost.card) ∧
      (u.canUpdate current → changedPostingDelta order current
        (changedDocuments H (Update.hashes current) u.candidates)
        (deletedUids H (Update.hashes current) u.candidates) = .ok (gained.card, lost.card))) ∧
    (∃ g rebuilt, maintained H scopeUid (updates ++ [u]) = some g ∧
      prepareReplaceScope (u.metadata H scopeUid current) desired = some rebuilt ∧
      g.metadata = rebuilt.metadata ∧ g.documents.Perm rebuilt.documents) ∧
    ∀ term, (lost.filter (·.2 = term)).card ≤ frequency ShardDocument.trigrams old term ∧
      frequency ShardDocument.trigrams old term - (lost.filter (·.2 = term)).card +
        (gained.filter (·.2 = term)).card = frequency ShardDocument.trigrams desired term := by
  intro current old desired gained lost
  have hspec := maintained_spec hfree scopeUid fun u' hu' => hkeyed u' (List.mem_append_left _ hu')
  have hnew := hkeyed u (List.mem_append_right _ List.mem_cons_self)
  have hkeyedNew : Keyed ShardDocument.identity desired := keyed_documents H hnew
  have hkeyedOld : Keyed ShardDocument.identity old := by
    cases hcurrent : maintained H scopeUid updates with
    | none =>
      have hnil : old = [] := by simp only [old, current, hcurrent]; rfl
      rw [hnil]
      exact List.nodup_nil
    | some g =>
      obtain ⟨-, oldCandidates, hold, hg⟩ := hspec g hcurrent
      have heq : old = g.documents := by simp only [old, current, hcurrent]; rfl
      rw [heq]
      exact keyed_generation hold hg
  have hchanged : u.canUpdate current → changedPostingDelta order current
      (changedDocuments H (Update.hashes current) u.candidates)
      (deletedUids H (Update.hashes current) u.candidates) = .ok (gained.card, lost.card) := by
    intro hcan
    obtain ⟨g, hcurrent, hhashes⟩ := Update.canUpdate_eq_true hcan
    obtain ⟨-, oldCandidates, hold, hg⟩ := hspec g hcurrent
    have heq : old = g.documents := by simp only [old, hcurrent]; rfl
    simp only [gained, lost, heq]
    rw [hcurrent, Update.hashes, hhashes]
    exact changedPostingDelta_eq hfree hnew hold hg
  refine ⟨fun segments hsegments => ?_, ?_, fun term => ?_⟩
  · have hwhole : postingDelta order (current.map fun _ => segments) false desired =
        .ok (gained.card, lost.card) := by
      cases hcurrent : current with
      | none =>
        have hnil : old = [] := by simp only [old, hcurrent]; rfl
        have hcard : (postingsOf desired).card = (desired.map fun d => d.trigrams.card).sum :=
          card_pairs hkeyedNew
        simp only [gained, lost, hnil]
        change Except.ok ((desired.map fun d => d.trigrams.card).sum, 0) = _
        rw [← hcard]
        simp [pairs]
      | some g => exact postingDelta_eq hkeyedOld hkeyedNew hsegments
    refine ⟨?_, hwhole, hchanged⟩
    rw [Update.delta]
    split_ifs with hcan
    · exact hchanged hcan
    · exact hwhole
  · obtain ⟨g, hprepare, hmetadata, hperm⟩ := Update.prepare_eq (u := u) hfree hnew hspec
    refine ⟨g, _, ?_, Update.prepareReplaceScope_documents, hmetadata, hperm⟩
    rw [maintained, List.foldl_concat]
    change (u.prepare H scopeUid current).or _ = _
    rw [hprepare]
    rfl
  · rw [frequency_eq hkeyedOld, frequency_eq hkeyedNew]
    exact card_filter_change _ _ _

/-- The text of the note becomes this one. -/
def rewritten (epoch : ℕ) (text : String) : Update := ⟨false, store, 0, epoch, note text⟩

lemma keyed_rewritten (epoch : ℕ) (text : String) : KeyedCandidates (rewritten epoch text).candidates :=
  List.nodup_singleton _

theorem maintained_exact_note :
    ∃ order : SetIteration (List Char), (rewritten 3 "xbce").delta spelling order
      (maintained spelling "scope" [rewritten 1 "abcd", rewritten 2 "abce"])
      ((maintained spelling "scope" [rewritten 1 "abcd", rewritten 2 "abce"]).map fun _ =>
        [documentsOf (maintained spelling "scope" [rewritten 1 "abcd", rewritten 2 "abce"])]) false =
          .ok (1, 1) := by
  let order : SetIteration (List Char) := ⟨Finset.toList, Finset.nodup_toList, Finset.mem_toList⟩
  have hexact := (maintained_exact spelling spelling_collisionFree "scope" order
    [rewritten 1 "abcd", rewritten 2 "abce"] (rewritten 3 "xbce")
    (by simp [keyed_rewritten])).1
      [documentsOf (maintained spelling "scope" [rewritten 1 "abcd", rewritten 2 "abce"])] (by simp)
  exact ⟨order, hexact.1.trans (by decide +kernel)⟩

end RegexRefresh
end NestWeaver
