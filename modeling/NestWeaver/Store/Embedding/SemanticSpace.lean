import NestWeaver.Store.Embedding.Index

/-!
# One semantic space

All live vectors of the embedding index come from pipelines with the recorded fingerprint, in every
state that the operations on the index lead to (`oneSpace`).  Between two resets of the force guard a
non-empty index is cleared at most once.  What a run has embedded after that is kept; what it has
embedded before is not, since the guard counts clears only.
-/

set_option linter.all false

namespace NestWeaver
namespace Embedding

open Transition

variable {F : Type*}

/-! ## Statement -/

/-- The index, and the pipeline that the vector under each UID was produced by. -/
structure Traced (F : Type*) where
  index : EmbeddingIndex F
  producer : String → Option EmbeddingPipelineV2

/-- The vectors that are there come from the recorded pipeline. -/
def Traced.start (index : EmbeddingIndex F) : Traced F := ⟨index, fun _ => index.recordedPipeline⟩

section Space

variable (sha256 : EmbeddingPipelineV2 → String)

def Traced.apply (t : Traced F) (op : Op F) : Traced F where
  index := op.apply sha256 t.index
  producer :=
    match op with
    | .addWithPipeline uid vector pipeline force =>
      if (t.index.addWithPipeline sha256 uid vector pipeline force).2 then
        Function.update t.producer uid (some pipeline)
      else t.producer
    | _ => t.producer

def Traced.step (t : Traced F) (op : Op F) : Option (Traced F) := some (t.apply sha256 op)

/-- All live vectors were produced by pipelines with the recorded fingerprint, and have the
dimension of the recorded pipeline. -/
def Traced.OneSpace (t : Traced F) : Prop :=
  ∀ uid vector, t.index.get uid = some vector → ∃ producer recorded fingerprint,
    t.producer uid = some producer ∧ producer.fingerprint sha256 = .ok fingerprint ∧
    t.index.recordedPipelineFingerprint = some fingerprint ∧
    t.index.recordedPipeline = some recorded ∧ recorded.fingerprint sha256 = .ok fingerprint ∧
    vector.length = producer.producedDimension ∧ vector.length = recorded.producedDimension

/-- The operation clears an index that is not empty. -/
def Traced.Clears (t : Traced F) (op : Op F) : Prop :=
  t.index.isEmpty = false ∧ t.index.pendingDeltas.count .clear <
    (op.apply sha256 t.index).pendingDeltas.count .clear

/-- The operation adds a vector at the cost of no live one. -/
def Traced.Keeps (t : Traced F) (op : Op F) : Prop :=
  ∀ uid vector pipeline force, op = .addWithPipeline uid vector pipeline force →
    ∀ uid', (t.index.get uid').isSome → ((op.apply sha256 t.index).get uid').isSome

/-- The vector is accepted. -/
def Traced.Embeds (t : Traced F) (op : Op F) (uid : String) : Prop :=
  ∃ vector pipeline force, op = .addWithPipeline uid vector pipeline force ∧
    (t.index.addWithPipeline sha256 uid vector pipeline force).2 = true

end Space

variable {sha256 : EmbeddingPipelineV2 → String} {t u : Traced F} {op : Op F}

/-! ## Removals -/

/-- Nothing but vectors is gone, and no clear is journaled. -/
structure Shrinks (index index' : EmbeddingIndex F) : Prop where
  get : ∀ uid vector, index'.get uid = some vector → index.get uid = some vector
  fingerprint : index'.recordedPipelineFingerprint = index.recordedPipelineFingerprint
  pipeline : index'.recordedPipeline = index.recordedPipeline
  clears : index'.pendingDeltas.count .clear = index.pendingDeltas.count .clear
  guard : index'.forceCleared = index.forceCleared

lemma Shrinks.refl (index : EmbeddingIndex F) : Shrinks index index :=
  ⟨fun _ _ h => h, rfl, rfl, rfl, rfl⟩

lemma Shrinks.trans {index index' index'' : EmbeddingIndex F} (h : Shrinks index index')
    (h' : Shrinks index' index'') : Shrinks index index'' where
  get uid vector hget := h.get uid vector (h'.get uid vector hget)
  fingerprint := h'.fingerprint.trans h.fingerprint
  pipeline := h'.pipeline.trans h.pipeline
  clears := h'.clears.trans h.clears
  guard := h'.guard.trans h.guard

lemma get_of_update_none {get : String → Option (List F)} {uid uid' : String} {vector : List F}
    (h : Function.update get uid none uid' = some vector) : get uid' = some vector := by
  by_cases huid : uid' = uid
  · rw [huid, Function.update_self] at h
    cases h
  · rwa [Function.update_of_ne huid] at h

lemma shrinks_tombstoneUid (index : EmbeddingIndex F) (uid : String) :
    Shrinks index (index.tombstoneUid uid) where
  get uid' vector h := get_of_update_none (EmbeddingIndex.get_tombstoneUid ▸ h)
  fingerprint := rfl
  pipeline := rfl
  clears := by
    unfold EmbeddingIndex.tombstoneUid
    dsimp only
    split
    · simp
    · rfl
  guard := rfl

lemma shrinks_removeUid (index : EmbeddingIndex F) (uid : String) :
    Shrinks index (index.removeUid uid) where
  get uid' vector h := get_of_update_none (EmbeddingIndex.get_removeUid ▸ h)
  fingerprint := rfl
  pipeline := rfl
  clears := by simp [EmbeddingIndex.removeUid]
  guard := rfl

lemma shrinks_foldl {f : EmbeddingIndex F → String → EmbeddingIndex F}
    (hf : ∀ index uid, Shrinks index (f index uid)) (uids : List String) (index : EmbeddingIndex F) :
    Shrinks index (uids.foldl f index) := by
  induction uids generalizing index with
  | nil => exact .refl index
  | cons uid uids ih => exact (hf index uid).trans (ih (f index uid))

lemma shrinks_tombstoneUids (index : EmbeddingIndex F) (deadUids : List String) :
    Shrinks index (index.tombstoneUids deadUids).1 :=
  shrinks_foldl shrinks_tombstoneUid deadUids index

lemma shrinks_retainUids (index : EmbeddingIndex F) (liveUids : Finset String) :
    Shrinks index (index.retainUids liveUids).1 :=
  shrinks_foldl shrinks_removeUid _ index

/-! ## The space -/

/-- The first vector found has the size that all live vectors have. -/
lemma Traced.OneSpace.dimension_eq (h : t.OneSpace sha256) {uid : String} {vector : List F}
    (hlive : t.index.get uid = some vector) : t.index.dimension = some vector.length := by
  have hsame : ∀ uid' vector', t.index.get uid' = some vector' → vector'.length = vector.length := by
    intro uid' vector' hlive'
    obtain ⟨-, recorded, -, -, -, -, hrecorded, -, -, hsize⟩ := h uid vector hlive
    obtain ⟨-, recorded', -, -, -, -, hrecorded', -, -, hsize'⟩ := h uid' vector' hlive'
    obtain rfl := Option.some.inj (hrecorded.symm.trans hrecorded')
    rw [hsize, hsize']
  cases hentries : t.index.embeddings.entries with
  | cons entry entries =>
    have hlookup : t.index.embeddings.lookup entry.1 = some entry.2 := by
      rw [← Option.mem_def, AList.mem_lookup_iff, hentries]
      exact List.mem_cons_self
    have hsize := hsame entry.1 entry.2 (EmbeddingIndex.get_of_mem hlookup)
    simp [EmbeddingIndex.dimension, hentries, hsize]
  | nil =>
    obtain hmem | ⟨-, -, base, hbase, hrow⟩ := EmbeddingIndex.get_eq_some hlive
    · have hentry := AList.mem_lookup_iff.mp (Option.mem_def.mpr hmem)
      rw [hentries] at hentry
      cases hentry
    · simp [EmbeddingIndex.dimension, hentries, hbase, ← base.rows_length _ hrow]

lemma Traced.OneSpace.of_shrinks (h : t.OneSpace sha256) (hshrinks : Shrinks t.index u.index)
    (hproducer : u.producer = t.producer) : u.OneSpace sha256 := by
  intro uid vector hlive
  rw [hproducer, hshrinks.fingerprint, hshrinks.pipeline]
  exact h uid vector (hshrinks.get uid vector hlive)

lemma oneSpace_of_isEmpty (h : t.index.isEmpty = true) : t.OneSpace sha256 := by
  intro uid vector hlive
  rw [EmbeddingIndex.get_of_isEmpty h] at hlive
  cases hlive

/-- A vector that is live beside an accepted one was live before, and the guards changed nothing. -/
lemma same_of_admitted {index start : EmbeddingIndex F} {incoming uid : String} {size : ℕ}
    {pipeline : EmbeddingPipelineV2} {force : Bool} {vector : List F}
    (h : index.Admitted incoming pipeline size force start) (hlive : start.get uid = some vector) :
    start = index ∧ (∀ r, index.recordedPipelineFingerprint = some r → r = incoming) ∧
      ∀ d, index.dimension = some d → size = d := by
  cases h with
  | same hrecorded hsize => exact ⟨rfl, hrecorded, hsize⟩
  | resized => simp at hlive
  | adopted r hr hne hempty hsize =>
    rw [EmbeddingIndex.get_record, EmbeddingIndex.get_of_isEmpty hempty] at hlive
    cases hlive
  | adoptedResized => simp at hlive
  | switched =>
    have hnone : index.clearSpace.get uid = none := EmbeddingIndex.get_clearSpace
    cases hnone.symm.trans hlive

lemma Traced.OneSpace.apply (h : t.OneSpace sha256) (op : Op F) :
    (t.apply sha256 op).OneSpace sha256 := by
  cases op with
  | resetForceGuard => exact h
  | tombstoneUids deadUids => exact h.of_shrinks (shrinks_tombstoneUids _ _) rfl
  | retainUids liveUids => exact h.of_shrinks (shrinks_retainUids _ _) rfl
  | addWithPipeline uid vector pipeline force =>
    obtain ⟨incoming, start, hincoming, hsize, hadmitted, hadd⟩ | hadd |
      ⟨incoming, r, -, -, -, hempty, hadd⟩ := EmbeddingIndex.addWithPipeline_cases sha256
        t.index uid vector pipeline force
    · intro uid' vector' hlive
      have hindex : (t.apply sha256 (.addWithPipeline uid vector pipeline force)).index =
          (start.upsert uid vector).record incoming pipeline := congrArg Prod.fst hadd
      have hproducer : (t.apply sha256 (.addWithPipeline uid vector pipeline force)).producer =
          Function.update t.producer uid (some pipeline) := if_pos (congrArg Prod.snd hadd)
      rw [hindex, EmbeddingIndex.get_record] at hlive
      rw [hindex, hproducer]
      by_cases huid : uid' = uid
      · subst huid
        obtain rfl : vector = vector' :=
          Option.some.inj (EmbeddingIndex.get_upsert_self.symm.trans hlive)
        exact ⟨pipeline, pipeline, incoming, Function.update_self .., hincoming, rfl, rfl, hincoming,
          hsize, hsize⟩
      · rw [EmbeddingIndex.get_upsert_of_ne huid] at hlive
        obtain ⟨rfl, hrecorded, hdimension⟩ := same_of_admitted hadmitted hlive
        obtain ⟨producer, recorded, fingerprint, hproducer', hfingerprint, hr, -, -, hsize', -⟩ :=
          h uid' vector' hlive
        obtain rfl := hrecorded fingerprint hr
        have hsame := hdimension _ (h.dimension_eq hlive)
        refine ⟨producer, pipeline, fingerprint, ?_, hfingerprint, rfl, rfl, hincoming, hsize',
          hsame.symm.trans hsize⟩
        rw [Function.update_of_ne huid, hproducer']
    · have hindex : (t.apply sha256 (.addWithPipeline uid vector pipeline force)).index = t.index :=
        congrArg Prod.fst hadd
      have hproducer : (t.apply sha256 (.addWithPipeline uid vector pipeline force)).producer =
          t.producer := if_neg (by rw [hadd]; exact Bool.false_ne_true)
      exact h.of_shrinks (hindex ▸ .refl _) hproducer
    · refine oneSpace_of_isEmpty ?_
      have hindex : (t.apply sha256 (.addWithPipeline uid vector pipeline force)).index =
          t.index.record incoming pipeline := congrArg Prod.fst hadd
      rw [hindex]
      exact hempty

/-! ## The force guard -/

/-- An accepted vector does not clear the index, or the guard was armed and is not any more. -/
lemma admitted_guard {index start : EmbeddingIndex F} {incoming : String} {size : ℕ}
    {pipeline : EmbeddingPipelineV2} {force : Bool}
    (h : index.Admitted incoming pipeline size force start) :
    (start.pendingDeltas = index.pendingDeltas ∧ start.forceCleared = index.forceCleared ∧
      start.get = index.get) ∨ index.forceCleared = false ∧ start.forceCleared = true := by
  cases h with
  | same => exact .inl ⟨rfl, rfl, rfl⟩
  | resized _ _ _ _ _ hguard => exact .inr ⟨hguard, rfl⟩
  | adopted => exact .inl ⟨rfl, rfl, rfl⟩
  | adoptedResized _ _ _ _ _ hguard => exact .inr ⟨hguard, rfl⟩
  | switched _ _ _ _ _ hguard => exact .inr ⟨hguard, rfl⟩

/-- An addition keeps the live vectors and journals no clear, or it uses up the guard. -/
lemma addWithPipeline_guard (sha256 : EmbeddingPipelineV2 → String) (index : EmbeddingIndex F)
    (uid : String) (vector : List F) (pipeline : EmbeddingPipelineV2) (force : Bool) :
    let added := (index.addWithPipeline sha256 uid vector pipeline force).1
    (added.pendingDeltas.count .clear = index.pendingDeltas.count .clear ∧
      added.forceCleared = index.forceCleared ∧
      ∀ uid', (index.get uid').isSome → (added.get uid').isSome) ∨
    index.forceCleared = false ∧ added.forceCleared = true := by
  obtain ⟨incoming, start, -, -, hadmitted, hadd⟩ | hadd | ⟨incoming, r, -, -, -, -, hadd⟩ :=
    EmbeddingIndex.addWithPipeline_cases sha256 index uid vector pipeline force
  · rw [hadd]
    obtain ⟨hpending, hguard, hget⟩ | ⟨hbefore, hafter⟩ := admitted_guard hadmitted
    · refine .inl ⟨?_, hguard, fun uid' hlive => ?_⟩
      · have hcount : (start.upsert uid vector).pendingDeltas.count .clear =
            index.pendingDeltas.count .clear := by simp [EmbeddingIndex.upsert, hpending]
        exact hcount
      · rw [EmbeddingIndex.get_record]
        by_cases huid : uid' = uid
        · rw [huid, EmbeddingIndex.get_upsert_self]
          rfl
        · rwa [EmbeddingIndex.get_upsert_of_ne huid, hget]
    · exact .inr ⟨hbefore, hafter⟩
  · rw [hadd]
    exact .inl ⟨rfl, rfl, fun _ h => h⟩
  · rw [hadd]
    exact .inl ⟨rfl, rfl, fun _ h => h⟩

lemma Traced.Clears.guard (h : t.Clears sha256 op) :
    t.index.forceCleared = false ∧ (t.apply sha256 op).index.forceCleared = true := by
  obtain ⟨-, hcount⟩ := h
  cases op with
  | resetForceGuard => exact absurd hcount (Nat.lt_irrefl _)
  | tombstoneUids deadUids =>
    exact absurd (shrinks_tombstoneUids t.index deadUids).clears hcount.ne'
  | retainUids liveUids => exact absurd (shrinks_retainUids t.index liveUids).clears hcount.ne'
  | addWithPipeline uid vector pipeline force =>
    obtain ⟨hsame, -⟩ | hguard := addWithPipeline_guard sha256 t.index uid vector
      pipeline force
    · exact absurd hsame hcount.ne'
    · exact hguard

lemma forceCleared_apply (h : t.index.forceCleared = true) (hop : op ≠ .resetForceGuard) :
    (t.apply sha256 op).index.forceCleared = true := by
  cases op with
  | resetForceGuard => exact absurd rfl hop
  | tombstoneUids deadUids => exact (shrinks_tombstoneUids t.index deadUids).guard.trans h
  | retainUids liveUids => exact (shrinks_retainUids t.index liveUids).guard.trans h
  | addWithPipeline uid vector pipeline force =>
    obtain ⟨-, hsame, -⟩ | ⟨-, hafter⟩ := addWithPipeline_guard sha256 t.index uid
      vector pipeline force
    · exact hsame.trans h
    · exact hafter

lemma keeps_of_forceCleared (h : t.index.forceCleared = true) : t.Keeps sha256 op := by
  rintro uid vector pipeline force rfl
  obtain ⟨-, -, hkeeps⟩ | ⟨hbefore, -⟩ := addWithPipeline_guard sha256 t.index uid
    vector pipeline force
  · exact hkeeps
  · rw [h] at hbefore
    cases hbefore

lemma forceCleared_of_run {ops : List (Op F)} (h : run (Traced.step sha256) t ops = some u)
    (hcleared : t.index.forceCleared = true) (hreset : .resetForceGuard ∉ ops) :
    u.index.forceCleared = true := by
  induction ops using List.reverseRecOn generalizing u with
  | nil =>
    obtain rfl : t = u := Option.some.inj h
    exact hcleared
  | append_singleton ops op ih =>
    obtain ⟨v, hv, hstep⟩ := run_concat_eq_some.mp h
    obtain rfl := Option.some.inj hstep
    have hbefore := ih hv fun hmem => hreset (List.mem_append_left _ hmem)
    refine forceCleared_apply hbefore ?_
    rintro rfl
    exact hreset (List.mem_append_right _ List.mem_cons_self)

/-! ## Every run -/

/-- **One semantic space.**  In a run from an index that is empty or in one semantic space, all states
are in one semantic space; and after an operation that clears a non-empty index, up to the next reset
of the force guard, there is no other such operation, and no vector that the run has embedded is
erased by another one. -/
theorem oneSpace (index : EmbeddingIndex F)
    (hstart : index.isEmpty = true ∨ (Traced.start index).OneSpace sha256) :
    (∀ ops t, run (Traced.step sha256) (.start index) ops = some t → t.OneSpace sha256) ∧
    ∀ front op between t u op', run (Traced.step sha256) (.start index) front = some t →
      run (Traced.step sha256) (.start index) (front ++ op :: between) = some u →
      t.Clears sha256 op → .resetForceGuard ∉ between →
      ¬u.Clears sha256 op' ∧ u.Keeps sha256 op' := by
  constructor
  · intro ops t hrun
    refine (steps_of_run hrun).invariant (P := Traced.OneSpace sha256) ?_ ?_
    · exact hstart.elim (fun h => oneSpace_of_isEmpty (t := .start index) h) id
    · intro u op u' h hstep
      obtain rfl := Option.some.inj hstep
      exact h.apply op
  · intro front op between t u op' ht hu hclears hreset
    rw [run_append, ht] at hu
    have hafter : run (Traced.step sha256) (t.apply sha256 op) between = some u := hu
    have hcleared := forceCleared_of_run hafter hclears.guard.2 hreset
    refine ⟨fun hagain => ?_, keeps_of_forceCleared hcleared⟩
    have harmed := hagain.guard.1
    rw [hcleared] at harmed
    cases harmed

/-- A daemon embeds with one pipeline, falls back to another, and is told to force both. -/
def fallbackRun : List (Op ℕ) :=
  [.addWithPipeline "a" [1] (.external "provider" "first" 1) true,
    .addWithPipeline "b" [2] (.external "provider" "second" 1) true,
    .addWithPipeline "c" [3] (.external "provider" "third" 1) true]

/-- The second switch clears, the third is refused. -/
theorem oneSpace_fallbackRun :
    (((run (Traced.step (·.modelId)) (.start .new) fallbackRun).map fun t =>
      ["a", "b", "c"].map t.index.get) = some [none, some [2], none]) ∧
    ¬∃ ops t, run (Traced.step (·.modelId)) (.start (.new : EmbeddingIndex ℕ)) ops = some t ∧
      ¬t.OneSpace (·.modelId) := by
  refine ⟨by decide +kernel, ?_⟩
  intro ⟨ops, t, hrun, hmixed⟩
  exact hmixed ((oneSpace .new (.inl rfl)).1 ops t hrun)

/-- What the run has embedded before it is switched is erased. -/
theorem fallbackRun_erases :
    ¬∀ (sha256 : EmbeddingPipelineV2 → String) (index : EmbeddingIndex ℕ)
      (front between : List (Op ℕ)) (op : Op ℕ) (t u : Traced ℕ) (uid : String) (op' : Op ℕ),
      index.isEmpty = true ∨ (Traced.start index).OneSpace sha256 →
      run (Traced.step sha256) (.start index) front = some t →
      run (Traced.step sha256) (.start index) (front ++ op :: between) = some u →
      t.Embeds sha256 op uid → .resetForceGuard ∉ between → (u.index.get uid).isSome →
      (∃ uid' vector pipeline force, op' = .addWithPipeline uid' vector pipeline force) →
      ((op'.apply sha256 u.index).get uid).isSome := by
  intro h
  -- an empty index whose intended pipeline is replaced by the first vector
  let intended := EmbeddingPipelineV2.external "provider" "intended" 1
  have hkept := h (·.modelId) (EmbeddingIndex.new.record "embedding-pipeline-v2:intended" intended)
    [] [] (.addWithPipeline "a" [1] (.external "provider" "first" 1) true) _ _ "a"
    (.addWithPipeline "b" [2] (.external "provider" "second" 1) true) (.inl rfl) rfl rfl
    ⟨_, _, _, rfl, by decide +kernel⟩ List.not_mem_nil (by decide +kernel) ⟨_, _, _, _, rfl⟩
  revert hkept
  decide +kernel

end Embedding
end NestWeaver
