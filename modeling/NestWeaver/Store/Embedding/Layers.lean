import NestWeaver.Store.Embedding.Index

/-!
# The layers of the embedding index

The tombstones are rows of the base that the overlay does not shadow, whatever the operations on the
index (`Layered.apply`).  So the occupancy, which is computed from sizes, counts the UIDs that have a
vector (`Layered.occupancy`).
-/

set_option linter.all false

namespace NestWeaver
namespace Embedding

variable {F : Type*}

/-! ## Layers -/

/-- Tombstones hide rows of the base that are not shadowed, and the base is as it was written. -/
structure EmbeddingIndex.Layered (index : EmbeddingIndex F) : Prop where
  inBase : ∀ uid ∈ index.deletedBaseUids, index.inBase uid
  hidden : ∀ uid ∈ index.deletedBaseUids, uid ∉ index.embeddings
  intact : ∀ base, index.base = some base → base.payloadIntact = true

namespace EmbeddingIndex

variable {index index' : EmbeddingIndex F} {uid : String} {vector : List F}

lemma layered_of_base_eq_none (hbase : index.base = none) (hdeleted : index.deletedBaseUids = ∅) :
    index.Layered where
  inBase := by simp [hdeleted]
  hidden := by simp [hdeleted]
  intact := by simp [hbase]

lemma Layered.congr (h : index.Layered) (hembeddings : index'.embeddings = index.embeddings)
    (hbase : index'.base = index.base) (hdeleted : index'.deletedBaseUids = index.deletedBaseUids) :
    index'.Layered where
  inBase uid huid := by
    rw [EmbeddingIndex.inBase, hbase]
    exact h.inBase uid (hdeleted ▸ huid)
  hidden uid huid := hembeddings ▸ h.hidden uid (hdeleted ▸ huid)
  intact base hbase' := h.intact base (hbase ▸ hbase')

lemma Layered.store (h : index.Layered)
    (hembeddings : index'.embeddings = index.embeddings.insert uid vector)
    (hbase : index'.base = index.base)
    (hdeleted : index'.deletedBaseUids = index.deletedBaseUids.erase uid) : index'.Layered where
  inBase uid' huid := by
    rw [hdeleted] at huid
    rw [EmbeddingIndex.inBase, hbase]
    exact h.inBase uid' (Finset.mem_of_mem_erase huid)
  hidden uid' huid hmem := by
    rw [hdeleted] at huid
    rw [hembeddings, AList.mem_insert] at hmem
    obtain rfl | hmem := hmem
    · exact Finset.notMem_erase _ _ huid
    · exact h.hidden uid' (Finset.mem_of_mem_erase huid) hmem
  intact base hbase' := h.intact base (hbase ▸ hbase')

lemma Layered.hide (h : index.Layered) (hembeddings : index'.embeddings = index.embeddings.erase uid)
    (hbase : index'.base = index.base)
    (hdeleted : ∀ uid', uid' ∈ index'.deletedBaseUids ↔
      uid' ∈ index.deletedBaseUids ∨ (uid' = uid ∧ index.inBase uid)) : index'.Layered where
  inBase uid' huid := by
    rw [EmbeddingIndex.inBase, hbase]
    obtain hmem | ⟨rfl, hrow⟩ := (hdeleted uid').mp huid
    · exact h.inBase uid' hmem
    · exact hrow
  hidden uid' huid hmem := by
    rw [hembeddings, AList.mem_erase] at hmem
    obtain hdead | ⟨rfl, -⟩ := (hdeleted uid').mp huid
    · exact h.hidden uid' hdead hmem.2
    · exact hmem.1 rfl
  intact base hbase' := h.intact base (hbase ▸ hbase')

lemma Layered.upsert (h : index.Layered) (uid : String) (vector : List F) :
    (index.upsert uid vector).Layered := h.store rfl rfl rfl

lemma Layered.tombstoneUid (h : index.Layered) (uid : String) : (index.tombstoneUid uid).Layered :=
  h.hide rfl rfl fun _ => mem_deleted_tombstoneUid

lemma Layered.removeUid (h : index.Layered) (uid : String) : (index.removeUid uid).Layered :=
  h.hide rfl rfl fun _ => mem_deleted_insert

lemma Layered.foldl {f : EmbeddingIndex F → String → EmbeddingIndex F}
    (hf : ∀ index uid, index.Layered → (f index uid).Layered) (uids : List String)
    (h : index.Layered) : (uids.foldl f index).Layered := by
  induction uids generalizing index with
  | nil => exact h
  | cons uid uids ih => exact ih (hf index uid h)

lemma Layered.admitted {start : EmbeddingIndex F} {incoming : String}
    {pipeline : EmbeddingPipelineV2} {size : ℕ} {force : Bool} (h : index.Layered)
    (hadmitted : index.Admitted incoming pipeline size force start) : start.Layered := by
  cases hadmitted with
  | same => exact h
  | resized => exact layered_of_base_eq_none rfl rfl
  | adopted => exact h.congr rfl rfl rfl
  | adoptedResized => exact layered_of_base_eq_none rfl rfl
  | switched => exact layered_of_base_eq_none rfl rfl

lemma Layered.apply {sha256 : EmbeddingPipelineV2 → String} (h : index.Layered) (op : Op F) :
    (op.apply sha256 index).Layered := by
  cases op with
  | resetForceGuard => exact h.congr rfl rfl rfl
  | tombstoneUids deadUids => exact h.foldl (fun _ uid h => h.tombstoneUid uid) deadUids
  | retainUids liveUids => exact h.foldl (fun _ uid h => h.removeUid uid) _
  | addWithPipeline uid vector pipeline force =>
    rw [Op.apply]
    obtain ⟨incoming, start, -, -, hadmitted, hadd⟩ | hadd | ⟨incoming, r, -, -, -, -, hadd⟩ :=
      addWithPipeline_cases sha256 index uid vector pipeline force
    · rw [hadd]
      exact ((h.admitted hadmitted).upsert uid vector).congr rfl rfl rfl
    · rw [hadd]
      exact h
    · rw [hadd]
      exact h.congr rfl rfl rfl

/-! ## Occupancy -/

lemma mem_liveRows {row : String × List F} : row ∈ index.liveRows ↔
    (∃ base, index.base = some base ∧ row ∈ base.rows) ∧ row.1 ∉ index.deletedBaseUids ∧
      row.1 ∉ index.embeddings := by
  rw [liveRows, List.mem_filter]
  cases hbase : index.base with
  | none => simp
  | some base => simp

lemma nodup_liveRows : (index.liveRows.map Prod.fst).Nodup := by
  rw [liveRows]
  refine List.Nodup.sublist (List.filter_sublist.map _) ?_
  cases index.base with
  | none => exact List.nodup_nil
  | some base => exact base.nodup

lemma nodup_allUids : index.allUids.Nodup := by
  rw [allUids, List.nodup_append]
  refine ⟨index.embeddings.keys_nodup, nodup_liveRows, ?_⟩
  rintro uid hoverlay uid' hbase rfl
  obtain ⟨row, hrow, rfl⟩ := List.mem_map.mp hbase
  exact (mem_liveRows.mp hrow).2.2 (AList.mem_keys.mpr hoverlay)

lemma mem_allUids : uid ∈ index.allUids ↔
    uid ∈ index.embeddings ∨ (index.inBase uid ∧ uid ∉ index.deletedBaseUids) := by
  rw [allUids, List.mem_append, ← AList.mem_keys, List.mem_map]
  constructor
  · rintro (hoverlay | ⟨row, hrow, rfl⟩)
    · exact .inl hoverlay
    · obtain ⟨⟨base, hbase, hmem⟩, hdeleted, -⟩ := mem_liveRows.mp hrow
      exact .inr ⟨⟨base, hbase, List.mem_map_of_mem hmem⟩, hdeleted⟩
  · rintro (hoverlay | ⟨⟨base, hbase, hcontains⟩, hdeleted⟩)
    · exact .inl hoverlay
    · by_cases hoverlay : uid ∈ index.embeddings
      · exact .inl hoverlay
      · obtain ⟨row, hrow, rfl⟩ := List.mem_map.mp hcontains
        exact .inr ⟨row, mem_liveRows.mpr ⟨⟨base, hbase, hrow⟩, hdeleted, hoverlay⟩, rfl⟩

/-- The UIDs that are listed are those that have a vector. -/
lemma Layered.mem_allUids (h : index.Layered) : uid ∈ index.allUids ↔ (index.get uid).isSome := by
  rw [EmbeddingIndex.mem_allUids]
  cases hoverlay : index.embeddings.lookup uid with
  | some vector =>
    have hmem : uid ∈ index.embeddings := AList.lookup_isSome.mp (by rw [hoverlay]; rfl)
    simp [hmem, get_of_mem hoverlay]
  | none =>
    have hmem : uid ∉ index.embeddings := AList.lookup_eq_none.mp hoverlay
    by_cases hdeleted : uid ∈ index.deletedBaseUids
    · simp [hmem, hdeleted, get_of_deleted hmem hdeleted]
    · by_cases hrow : index.inBase uid
      · obtain ⟨base, hbase, hcontains⟩ := hrow
        have hlookup : (base.rows.lookup uid).isSome := by
          rw [Option.isSome_iff_ne_none, Ne, lookup_rows_eq_none]
          exact not_not_intro hcontains
        have hget : index.get uid = base.rows.lookup uid := by
          simp [get, hoverlay, hdeleted, Option.mem_def.mp hbase, Option.filter, h.intact base hbase]
        rw [hget]
        exact iff_of_true (.inr ⟨⟨base, hbase, hcontains⟩, hdeleted⟩) hlookup
      · simp [hmem, hrow, get_of_not_inBase hmem hrow]

/-- **Occupancy.**  The live count is the number of UIDs that have a vector. -/
lemma Layered.occupancy (h : index.Layered) : index.occupancy.1 = index.allUids.length := by
  classical
  -- the rows of the base, and the UIDs of the overlay that it has no row for
  set rows := index.base.elim [] fun base => base.rows.map Prod.fst with hrows
  have hin : ∀ uid, index.inBase uid ↔ uid ∈ rows := by
    intro uid
    rw [EmbeddingIndex.inBase, hrows]
    cases index.base with
    | none => simp
    | some base => simp [EmbeddingBase.contains]
  have hnodup : rows.Nodup := by
    rw [hrows]
    cases index.base with
    | none => exact List.nodup_nil
    | some base => exact base.nodup
  set new := index.embeddings.keys.filter fun uid => ¬index.inBase uid with hnew
  have hstored : (rows ++ new).Nodup := by
    rw [List.nodup_append]
    refine ⟨hnodup, index.embeddings.keys_nodup.filter _, ?_⟩
    rintro uid hrow uid' hkey rfl
    exact of_decide_eq_true (List.mem_filter.mp hkey).2 ((hin uid).mpr hrow)
  have hmem : ∀ uid, uid ∈ (rows ++ new).toFinset \ index.deletedBaseUids ↔
      uid ∈ index.allUids.toFinset := by
    intro uid
    rw [Finset.mem_sdiff, List.mem_toFinset, List.mem_toFinset, EmbeddingIndex.mem_allUids,
      List.mem_append, hnew, List.mem_filter, ← AList.mem_keys, ← hin, decide_eq_true_iff]
    constructor
    · rintro ⟨hrow | ⟨hkey, -⟩, hdeleted⟩
      · exact .inr ⟨hrow, hdeleted⟩
      · exact .inl hkey
    · rintro (hkey | ⟨hrow, hdeleted⟩)
      · refine ⟨?_, fun hdeleted => h.hidden uid hdeleted hkey⟩
        by_cases hrow : index.inBase uid
        · exact .inl hrow
        · exact .inr ⟨hkey, hrow⟩
      · exact ⟨.inl hrow, hdeleted⟩
  have hsub : index.deletedBaseUids ⊆ (rows ++ new).toFinset := by
    intro uid huid
    rw [List.mem_toFinset, List.mem_append, ← hin]
    exact .inl (h.inBase uid huid)
  have hcard := Finset.card_sdiff_of_subset hsub
  rw [Finset.ext hmem, List.toFinset_card_of_nodup nodup_allUids,
    List.toFinset_card_of_nodup hstored, List.length_append] at hcard
  have hlength : index.base.elim 0 (·.rows.length) = rows.length := by
    rw [hrows]
    cases index.base with
    | none => rfl
    | some base => simp
  rw [hcard, EmbeddingIndex.occupancy]
  simp only [hlength, hnew]

end EmbeddingIndex

end Embedding
end NestWeaver
