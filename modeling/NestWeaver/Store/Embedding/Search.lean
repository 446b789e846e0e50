import Mathlib.Algebra.Order.Ring.Int
import Mathlib.Data.Prod.Lex
import Mathlib.Data.String.Basic
import NestWeaver.Framework.ParallelTop
import NestWeaver.Store.Embedding.Index

/-!
# Search by similarity

`vector_search_cancellable` and `vector_search_filtered` of `crates/nestweaver-store/src/search.rs`, as long as
nothing cancels them: the vectors of the overlay and the rows of the base are scored by threads, the best of
each part are kept, and what the threads kept is merged.

Whatever the threads do, the result is the beginning of all eligible vectors in order (`vectorSearch_eq`),
except that a query without a norm has no result.

Scores are of any linear order, and how they are computed is a parameter.
-/

set_option linter.all false

namespace NestWeaver
namespace Embedding

open TopK

/-! ## The code -/

structure RankedEmbedding (S : Type*) where
  uid : String
  score : S
  deriving DecidableEq, Repr

/-- How a vector is scored for a query, and whether the norm of a query is zero. -/
structure Scoring (F S : Type*) where
  similarity : List F → List F → S
  normIsZero : List F → Bool

inductive SearchError
  | embeddingArtifactCorrupt
  deriving DecidableEq, Repr

/-- The UID is that of the owner of a module. -/
def isModuleOwnerUid (ownerSuffix uid : String) : Bool :=
  "sym:".toList <+: uid.toList ∧ ownerSuffix.toList <:+ uid.toList

section Code

variable {F S : Type*} [LinearOrder S]

/-- What is compared: the less, the better. -/
def RankedEmbedding.key (r : RankedEmbedding S) : Sᵒᵈ ×ₗ String := toLex (OrderDual.toDual r.score, r.uid)

def EmbeddingIndex.overlayEntries (index : EmbeddingIndex F) : List (String × List F) :=
  index.embeddings.entries.map fun e => (e.1, e.2)

def EmbeddingIndex.baseRows (index : EmbeddingIndex F) : List (String × List F) := index.base.elim [] (·.rows)

def EmbeddingIndex.baseIsCorrupt (index : EmbeddingIndex F) : Bool := index.base.any fun base => !base.payloadIntact

/-- What the threads do: how they split the overlay and the base, and how they merge what they kept. -/
structure Threads (index : EmbeddingIndex F) (S : Type*) where
  overlay : Schedule (String × List F) (RankedEmbedding S)
  base : Schedule (String × List F) (RankedEmbedding S)
  drain : {f : List (RankedEmbedding S) → List (RankedEmbedding S) // ∀ heap, (f heap).Perm heap}
  overlay_items : overlay.items.Perm index.overlayEntries
  base_items : base.items.Perm index.baseRows

section Candidates

variable (scoring : Scoring F S) (ownerSuffix : String) (index : EmbeddingIndex F) (queryVec : List F)
  (uidPrefix : Option String)

def overlayCandidate (entry : String × List F) : Option (RankedEmbedding S) :=
  if ¬(uidPrefix.all fun pattern => pattern.toList <:+: entry.1.toList) ∨ isModuleOwnerUid ownerSuffix entry.1 ∨
      entry.2.length ≠ queryVec.length then none
  else some ⟨entry.1, scoring.similarity entry.2 queryVec⟩

def baseCandidate (row : String × List F) : Option (RankedEmbedding S) :=
  if row.1 ∈ index.deletedBaseUids ∨ row.1 ∈ index.embeddings ∨
      ¬(uidPrefix.all fun pattern => pattern.toList <:+: row.1.toList) ∨ isModuleOwnerUid ownerSuffix row.1
    then none
  else some ⟨row.1, scoring.similarity row.2 queryVec⟩

/-- The base has vectors that the query can be compared with. -/
def EmbeddingIndex.baseFits : Bool :=
  index.base.any fun base => base.dimension = queryVec.length && base.payloadIntact

def finishTop (heap : List (RankedEmbedding S)) : List (String × S) :=
  (ranked RankedEmbedding.key heap).map fun r => (r.uid, r.score)

/-- The heaps of the overlay and the base, merged. -/
def mergedHeap (threads : Threads index S) (limit : ℕ) : List (RankedEmbedding S) :=
  let overlayHeap := threads.overlay.heap RankedEmbedding.key
    (overlayCandidate scoring ownerSuffix queryVec uidPrefix) limit
  let baseHeap :=
    if index.baseFits queryVec then threads.base.heap RankedEmbedding.key
      (baseCandidate scoring ownerSuffix index queryVec uidPrefix) limit
    else []
  (threads.drain.1 baseHeap).foldl (offer RankedEmbedding.key limit) overlayHeap

def vectorSearchFiltered (threads : Threads index S) (limit : ℕ) : Except SearchError (List (String × S)) :=
  if index.baseIsCorrupt then .error .embeddingArtifactCorrupt
  else if scoring.normIsZero queryVec then .ok []
  else .ok (finishTop (mergedHeap scoring ownerSuffix index queryVec uidPrefix threads limit))

def vectorSearchCancellable (threads : Threads index S) (limit : ℕ) : Except SearchError (List (String × S)) :=
  if index.baseIsCorrupt then .error .embeddingArtifactCorrupt
  else if scoring.normIsZero queryVec then .ok []
  else if limit = 0 then .ok []
  else .ok (finishTop (mergedHeap scoring ownerSuffix index queryVec none threads limit))

/-! ## What is asked for -/

/-- A live vector that is to be compared with the query, with its score. -/
def Eligible (e : String × S) : Prop :=
  ∃ vector, index.get e.1 = some vector ∧ vector.length = queryVec.length ∧
    isModuleOwnerUid ownerSuffix e.1 = false ∧
    (∀ pattern ∈ uidPrefix, pattern.toList <:+: e.1.toList) ∧ e.2 = scoring.similarity vector queryVec

/-- All eligible vectors, the best scores first, and those with one score by their UID. -/
structure Ranking (all : List (String × S)) : Prop where
  mem : ∀ e, e ∈ all ↔ Eligible scoring ownerSuffix index queryVec uidPrefix e
  once : (all.map Prod.fst).Nodup
  sorted : all.Pairwise fun e e' => e'.2 < e.2 ∨ e.2 = e'.2 ∧ e.1 < e'.1

/-- All candidates. -/
def candidates : List (RankedEmbedding S) :=
  index.overlayEntries.filterMap (overlayCandidate scoring ownerSuffix queryVec uidPrefix) ++
    (if index.baseFits queryVec then
      index.baseRows.filterMap (baseCandidate scoring ownerSuffix index queryVec uidPrefix)
    else [])

end Candidates

/-! ## Candidates -/

variable {scoring : Scoring F S} {ownerSuffix : String} {index : EmbeddingIndex F} {queryVec : List F}
variable {uidPrefix : Option String} {entry : String × List F} {r : RankedEmbedding S}

lemma mem_overlayEntries : entry ∈ index.overlayEntries ↔ index.embeddings.lookup entry.1 = some entry.2 := by
  rw [EmbeddingIndex.overlayEntries, List.mem_map]
  constructor
  · rintro ⟨e, he, rfl⟩
    exact AList.mem_lookup_iff.mpr he
  · intro h
    exact ⟨⟨entry.1, entry.2⟩, AList.mem_lookup_iff.mp h, rfl⟩

lemma all_infix_iff {uid : String} : (uidPrefix.all fun pattern => decide (pattern.toList <:+: uid.toList)) = true ↔
    ∀ pattern ∈ uidPrefix, pattern.toList <:+: uid.toList := by
  cases uidPrefix <;> simp

omit [LinearOrder S] in
lemma overlayCandidate_eq_some : overlayCandidate scoring ownerSuffix queryVec uidPrefix entry = some r ↔
    (∀ pattern ∈ uidPrefix, pattern.toList <:+: entry.1.toList) ∧ isModuleOwnerUid ownerSuffix entry.1 = false ∧
      entry.2.length = queryVec.length ∧ r = ⟨entry.1, scoring.similarity entry.2 queryVec⟩ := by
  rw [overlayCandidate, Option.ite_none_left_eq_some, not_or, not_or, not_not, not_not, Bool.not_eq_true,
    Option.some_inj, all_infix_iff, and_assoc, and_assoc, eq_comm (b := r)]

omit [LinearOrder S] in
lemma baseCandidate_eq_some : baseCandidate scoring ownerSuffix index queryVec uidPrefix entry = some r ↔
    entry.1 ∉ index.deletedBaseUids ∧ entry.1 ∉ index.embeddings ∧
      (∀ pattern ∈ uidPrefix, pattern.toList <:+: entry.1.toList) ∧
      isModuleOwnerUid ownerSuffix entry.1 = false ∧ r = ⟨entry.1, scoring.similarity entry.2 queryVec⟩ := by
  rw [baseCandidate, Option.ite_none_left_eq_some, not_or, not_or, not_or, not_not, Bool.not_eq_true,
    Option.some_inj, all_infix_iff, and_assoc, and_assoc, and_assoc, eq_comm (b := r)]

omit [LinearOrder S] in
/-- The candidates are the eligible vectors. -/
lemma mem_candidates (hbase : index.baseIsCorrupt = false) {e : String × S} :
    (⟨e.1, e.2⟩ : RankedEmbedding S) ∈ candidates scoring ownerSuffix index queryVec uidPrefix ↔
      Eligible scoring ownerSuffix index queryVec uidPrefix e := by
  have hintact : ∀ base, index.base = some base → base.payloadIntact = true := by
    intro base hsome
    simpa [EmbeddingIndex.baseIsCorrupt, hsome] using hbase
  rw [candidates, List.mem_append]
  constructor
  · rintro (hmem | hmem)
    · obtain ⟨entry, hentry, hr⟩ := List.mem_filterMap.mp hmem
      obtain ⟨hpattern, howner, hsize, hr⟩ := overlayCandidate_eq_some.mp hr
      obtain ⟨huid, hscore⟩ := RankedEmbedding.mk.inj hr
      rw [← huid] at hpattern howner
      refine ⟨entry.2, ?_, hsize, howner, hpattern, hscore⟩
      rw [huid]
      exact EmbeddingIndex.get_of_mem (mem_overlayEntries.mp hentry)
    · split_ifs at hmem with hfits
      · obtain ⟨row, hrow, hr⟩ := List.mem_filterMap.mp hmem
        obtain ⟨hdeleted, hoverlay, hpattern, howner, hr⟩ := baseCandidate_eq_some.mp hr
        obtain ⟨huid, hscore⟩ := RankedEmbedding.mk.inj hr
        rw [← huid] at hpattern howner hdeleted hoverlay
        cases hsome : index.base with
        | none =>
          rw [EmbeddingIndex.baseRows, hsome] at hrow
          exact absurd hrow List.not_mem_nil
        | some base =>
          have hrow' : row ∈ base.rows := by simpa [EmbeddingIndex.baseRows, hsome] using hrow
          have hsize : base.dimension = queryVec.length := by
            simp only [EmbeddingIndex.baseFits, hsome, Option.any_some, Bool.and_eq_true,
              decide_eq_true_eq] at hfits
            exact hfits.1
          refine ⟨row.2, ?_, (base.rows_length row hrow').trans hsize, howner, hpattern, hscore⟩
          refine EmbeddingIndex.get_of_row hsome (hintact base hsome) hoverlay hdeleted ?_
          rw [huid]
          exact hrow'
      · exact absurd hmem List.not_mem_nil
  · rintro ⟨vector, hget, hsize, howner, hpattern, hscore⟩
    obtain hoverlay | ⟨hoverlay, hdeleted, base, hsome, hrow⟩ := EmbeddingIndex.get_eq_some hget
    · refine .inl (List.mem_filterMap.mpr ⟨(e.1, vector), mem_overlayEntries.mpr hoverlay, ?_⟩)
      exact overlayCandidate_eq_some.mpr ⟨hpattern, howner, hsize, by rw [hscore]⟩
    · have hfits : index.baseFits queryVec = true := by
        simp only [EmbeddingIndex.baseFits, hsome, Option.any_some, Bool.and_eq_true, decide_eq_true_eq]
        exact ⟨(base.rows_length _ hrow).symm.trans hsize, hintact base hsome⟩
      rw [if_pos hfits]
      refine .inr (List.mem_filterMap.mpr ⟨(e.1, vector), ?_, ?_⟩)
      · simpa [EmbeddingIndex.baseRows, hsome] using hrow
      · exact baseCandidate_eq_some.mpr ⟨hdeleted, hoverlay, hpattern, howner, by rw [hscore]⟩

omit [LinearOrder S] in
lemma map_uid_filterMap_sublist (candidate : String × List F → Option (RankedEmbedding S))
    (h : ∀ entry r, candidate entry = some r → r.uid = entry.1) (entries : List (String × List F)) :
    ((entries.filterMap candidate).map RankedEmbedding.uid).Sublist (entries.map Prod.fst) := by
  induction entries with
  | nil => exact List.Sublist.slnil
  | cons entry entries ih =>
    rw [List.filterMap_cons, List.map_cons]
    cases hentry : candidate entry with
    | none => exact ih.cons _
    | some r =>
      rw [List.map_cons, h entry r hentry]
      exact ih.cons_cons _

omit [LinearOrder S] in
/-- No UID has two candidates. -/
lemma nodup_uid_candidates (scoring : Scoring F S) (ownerSuffix : String) (index : EmbeddingIndex F)
    (queryVec : List F) (uidPrefix : Option String) :
    ((candidates scoring ownerSuffix index queryVec uidPrefix).map RankedEmbedding.uid).Nodup := by
  have hoverlay : ((index.overlayEntries.filterMap
      (overlayCandidate scoring ownerSuffix queryVec uidPrefix)).map RankedEmbedding.uid).Sublist
      index.embeddings.keys := by
    have hsub := map_uid_filterMap_sublist (overlayCandidate scoring ownerSuffix queryVec uidPrefix)
      (fun entry r hr => by rw [(overlayCandidate_eq_some.mp hr).2.2.2]) index.overlayEntries
    rwa [EmbeddingIndex.overlayEntries, List.map_map] at hsub
  have hbase : ((if index.baseFits queryVec then
      index.baseRows.filterMap (baseCandidate scoring ownerSuffix index queryVec uidPrefix)
      else []).map RankedEmbedding.uid).Nodup := by
    split_ifs
    · refine List.Nodup.sublist (map_uid_filterMap_sublist _
        (fun entry r hr => by rw [(baseCandidate_eq_some.mp hr).2.2.2.2]) index.baseRows) ?_
      rw [EmbeddingIndex.baseRows]
      cases index.base with
      | none => exact List.nodup_nil
      | some base => exact base.nodup
    · exact List.nodup_nil
  rw [candidates, List.map_append, List.nodup_append]
  refine ⟨index.embeddings.keys_nodup.sublist hoverlay, hbase, ?_⟩
  rintro uid huid uid' huid' rfl
  obtain ⟨r, hr, rfl⟩ := List.mem_map.mp huid'
  split_ifs at hr
  · obtain ⟨row, -, hrow⟩ := List.mem_filterMap.mp hr
    obtain ⟨-, hnot, -, -, heq⟩ := baseCandidate_eq_some.mp hrow
    rw [heq] at huid
    exact hnot (AList.mem_keys.mpr (hoverlay.subset huid))
  · exact absurd hr List.not_mem_nil

lemma nodup_key_candidates (scoring : Scoring F S) (ownerSuffix : String) (index : EmbeddingIndex F)
    (queryVec : List F) (uidPrefix : Option String) :
    ((candidates scoring ownerSuffix index queryVec uidPrefix).map RankedEmbedding.key).Nodup := by
  refine List.Nodup.of_map (fun k => (ofLex k).2) ?_
  rw [List.map_map]
  exact nodup_uid_candidates scoring ownerSuffix index queryVec uidPrefix

/-! ## The result -/

/-- What the threads keep is the beginning of the candidates in order. -/
lemma ranked_mergedHeap (threads : Threads index S) (limit : ℕ) :
    ranked RankedEmbedding.key (mergedHeap scoring ownerSuffix index queryVec uidPrefix threads limit) =
      (ranked RankedEmbedding.key (candidates scoring ownerSuffix index queryVec uidPrefix)).take limit := by
  set oc := overlayCandidate scoring ownerSuffix queryVec uidPrefix with hoc
  set bc := baseCandidate scoring ownerSuffix index queryVec uidPrefix with hbc
  set overlayItems := threads.overlay.items.filterMap oc with hoverlayItems
  set baseItems := if index.baseFits queryVec then threads.base.items.filterMap bc else [] with hbaseItems
  have hperm : (overlayItems ++ baseItems).Perm (candidates scoring ownerSuffix index queryVec uidPrefix) := by
    refine (threads.overlay_items.filterMap _).append ?_
    rw [hbaseItems]
    split_ifs
    · exact threads.base_items.filterMap _
    · exact List.Perm.refl _
  have hnodup : ((overlayItems ++ baseItems).map RankedEmbedding.key).Nodup :=
    (hperm.map RankedEmbedding.key).nodup_iff.mpr (nodup_key_candidates scoring ownerSuffix index queryVec uidPrefix)
  have hparts := hnodup
  rw [List.map_append, List.nodup_append] at hparts
  have hoverlay : (threads.overlay.heap RankedEmbedding.key oc limit).Perm
      ((ranked RankedEmbedding.key overlayItems).take limit) := Schedule.perm_heap limit _ hparts.1
  have hbase : (if index.baseFits queryVec then threads.base.heap RankedEmbedding.key bc limit else []).Perm
      ((ranked RankedEmbedding.key baseItems).take limit) := by
    rw [hbaseItems] at hparts ⊢
    split_ifs at hparts ⊢
    · exact Schedule.perm_heap limit _ hparts.2.1
    · exact List.Perm.of_eq List.take_nil.symm
  have hmerged := perm_merge hnodup hoverlay ((threads.drain.2 _).trans hbase)
  rw [← ranked_eq_of_perm hnodup hperm]
  exact ranked_of_perm_take hnodup hmerged

/-- The candidates in order. -/
lemma ranking_candidates (hbase : index.baseIsCorrupt = false) :
    Ranking scoring ownerSuffix index queryVec uidPrefix
      (finishTop (candidates scoring ownerSuffix index queryVec uidPrefix)) := by
  set cs := candidates scoring ownerSuffix index queryVec uidPrefix with hcs
  have hperm := ranked_perm RankedEmbedding.key cs
  refine ⟨fun e => ?_, ?_, ?_⟩
  · rw [← mem_candidates hbase, ← hcs, ← hperm.mem_iff, finishTop, List.mem_map]
    constructor
    · rintro ⟨r, hr, rfl⟩
      exact hr
    · intro he
      exact ⟨_, he, rfl⟩
  · rw [finishTop, List.map_map]
    exact (hperm.map RankedEmbedding.uid).nodup_iff.mpr
      (nodup_uid_candidates scoring ownerSuffix index queryVec uidPrefix)
  · rw [finishTop, List.pairwise_map]
    have hnodup : ((ranked RankedEmbedding.key cs).map RankedEmbedding.key).Nodup :=
      (hperm.map RankedEmbedding.key).nodup_iff.mpr
        (nodup_key_candidates scoring ownerSuffix index queryVec uidPrefix)
    rw [List.Nodup, List.pairwise_map] at hnodup
    refine ((pairwise_ranked RankedEmbedding.key cs).and hnodup).imp fun {r r'} h => ?_
    have hlt : r.key < r'.key := lt_of_le_of_ne h.1 h.2
    obtain hscore | ⟨hscore, huid⟩ := Prod.Lex.toLex_lt_toLex.mp hlt
    · exact .inl hscore
    · exact .inr ⟨OrderDual.toDual_inj.mp hscore, huid⟩

/-- **The best of all vectors.**  For every index, scoring, query, filter and limit, and whatever the threads
do: a base whose payload is corrupt is reported; a query without a norm has no result; and otherwise the result
is the beginning of all eligible vectors in order. -/
theorem vectorSearch_eq (scoring : Scoring F S) (ownerSuffix : String) (index : EmbeddingIndex F)
    (queryVec : List F) (uidPrefix : Option String) :
    ∃ all, (index.baseIsCorrupt = false → Ranking scoring ownerSuffix index queryVec uidPrefix all) ∧
      ∀ (threads : Threads index S) (limit : ℕ),
        let answer : Except SearchError (List (String × S)) :=
          if index.baseIsCorrupt then .error .embeddingArtifactCorrupt
          else .ok (if scoring.normIsZero queryVec then [] else all.take limit)
        vectorSearchFiltered scoring ownerSuffix index queryVec uidPrefix threads limit = answer ∧
          (uidPrefix = none → vectorSearchCancellable scoring ownerSuffix index queryVec threads limit = answer) := by
  refine ⟨finishTop (candidates scoring ownerSuffix index queryVec uidPrefix), ranking_candidates, ?_⟩
  intro threads limit answer
  have hfinish : finishTop (mergedHeap scoring ownerSuffix index queryVec uidPrefix threads limit) =
      (finishTop (candidates scoring ownerSuffix index queryVec uidPrefix)).take limit := by
    rw [finishTop, ranked_mergedHeap, finishTop, List.map_take]
  by_cases hcorrupt : index.baseIsCorrupt = true
  · have hanswer : answer = .error .embeddingArtifactCorrupt := if_pos hcorrupt
    rw [hanswer, vectorSearchFiltered, if_pos hcorrupt, vectorSearchCancellable, if_pos hcorrupt]
    exact ⟨rfl, fun _ => rfl⟩
  · by_cases hzero : scoring.normIsZero queryVec = true
    · have hanswer : answer = .ok [] := by rw [show answer = _ from if_neg hcorrupt, if_pos hzero]
      rw [hanswer, vectorSearchFiltered, if_neg hcorrupt, if_pos hzero, vectorSearchCancellable, if_neg hcorrupt,
        if_pos hzero]
      exact ⟨rfl, fun _ => rfl⟩
    · have hanswer : answer = .ok ((finishTop
          (candidates scoring ownerSuffix index queryVec uidPrefix)).take limit) := by
        rw [show answer = _ from if_neg hcorrupt, if_neg hzero]
      rw [hanswer, vectorSearchFiltered, if_neg hcorrupt, if_neg hzero, hfinish, vectorSearchCancellable,
        if_neg hcorrupt, if_neg hzero]
      refine ⟨rfl, ?_⟩
      rintro rfl
      by_cases hlimit : limit = 0
      · rw [if_pos hlimit, hlimit, List.take_zero]
      · rw [if_neg hlimit, hfinish]

end Code

/-- Integers, compared by their products. -/
def productScoring : Scoring ℤ ℤ := ⟨fun vector query => (List.zipWith (· * ·) vector query).sum, (·.all (· = 0))⟩

/-- One vector in the overlay. -/
def singleIndex : EmbeddingIndex ℤ := EmbeddingIndex.new.upsert "note:a" [1]

def singleThreads : Threads singleIndex ℤ where
  overlay := .chunk singleIndex.overlayEntries
  base := .chunk []
  drain := ⟨id, fun _ => .refl _⟩
  overlay_items := .refl _
  base_items := .refl _

/-- **A query without a norm** has no result, although there is an eligible vector. -/
theorem vectorSearch_zeroNorm :
    vectorSearchCancellable productScoring ":owner:1" singleIndex [0] singleThreads 1 = .ok [] ∧
      Eligible productScoring ":owner:1" singleIndex [0] none ("note:a", 0) := by
  refine ⟨rfl, [1], ?_, rfl, by decide, fun _ h => absurd h (Option.not_mem_none _), rfl⟩
  exact EmbeddingIndex.get_upsert_self

end Embedding
end NestWeaver
