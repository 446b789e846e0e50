import Mathlib.Data.List.Nodup
import NestWeaver.Framework.Transition
import NestWeaver.Store.Shard.Refresh

/-!
# A trusted regex shard is exact

A shard is exact when its documents are those of the graph as it was under the epoch of the shard
(`System.Exact`).  The desired epoch grows with the text, so an exact shard with the desired epoch
has the documents of the present graph.

A refresh publishes exact shards as long as the selector only goes forward.  Then the hashes that it
reads and the shard that it copies have one epoch when the copy has the metadata that the refresh
began with, and the changes lead from the copy to the candidates (`Plan.perm_of_prepare`).  The
selector can go back: the check of its metadata and the publication are two steps.
-/

set_option linter.all false

namespace NestWeaver
namespace RegexRefresh

open Shard (ShardMetadata)
open Transition

/-! ## Changes of a keyed list -/

section Patch

variable {α κ : Type*} [DecidableEq κ] {key : α → κ} {old new : List α}
  {changed : α → Bool} {deletes : List κ}

/-- What is kept of the old list is in the new one, and the length is right: then the list with its
changes is the new one, up to the order. -/
lemma perm_patch (hold : old.Nodup)
    (hkept : ∀ a ∈ old, key a ∉ deletes ++ (new.filter changed).map key → a ∈ new)
    (hlength : (old.filter (fun a => key a ∉ deletes ++ (new.filter changed).map key) ++
      new.filter changed).length = new.length) :
    (old.filter (fun a => key a ∉ deletes ++ (new.filter changed).map key) ++
      new.filter changed).Perm new := by
  set kept := old.filter fun a => key a ∉ deletes ++ (new.filter changed).map key
  have hsplit : (new.filter changed ++ new.filter fun a => !changed a).Perm new :=
    List.filter_append_perm changed new
  have hsubset : kept ⊆ new.filter fun a => !changed a := by
    intro a ha
    obtain ⟨hmem, hnot⟩ := List.mem_filter.mp ha
    have hnot : key a ∉ deletes ++ (new.filter changed).map key := by simpa using hnot
    have hnew := hkept a hmem hnot
    refine List.mem_filter.mpr ⟨hnew, ?_⟩
    by_contra hchanged
    have hup : a ∈ new.filter changed := List.mem_filter.mpr ⟨hnew, by simpa using hchanged⟩
    exact hnot (List.mem_append_right _ (List.mem_map_of_mem hup))
  have hle : (new.filter fun a => !changed a).length ≤ kept.length := by
    have h := hsplit.length_eq
    rw [List.length_append] at h hlength
    omega
  have hkeptPerm : kept.Perm (new.filter fun a => !changed a) :=
    (List.subperm_of_subset (hold.filter _) hsubset).perm_of_length_le hle
  exact (hkeptPerm.append_right _).trans (List.perm_append_comm.trans hsplit)

end Patch

/-! ## Documents -/

section Documents

variable {H : Hashing} {candidates : List Candidate} {c : Candidate}

/-- The hashes tell the text and the path of a candidate. -/
def Hashing.CollisionFree (H : Hashing) : Prop :=
  ∀ c c' : Candidate, H.candidateDocumentHash c = H.candidateDocumentHash c' →
    c.text = c'.text ∧ candidatePath c = candidatePath c'

lemma mem_documents_of_last {identity : DocumentIdentity}
    (h : lastOf Candidate.identity candidates identity = some c) :
    H.document candidates c ∈ H.documents candidates ∧
      (H.document candidates c).identity = identity ∧
      (H.document candidates c).textHash = H.candidateDocumentHash c := by
  obtain ⟨hmem, rfl⟩ := mem_of_lastOf h
  refine ⟨List.mem_map_of_mem hmem, rfl, ?_⟩
  simp [Hashing.document, Hashing.desiredDocuments, h]

/-- Where no two documents have one identity, a document is that of the last candidate with its
identity. -/
lemma exists_last_of_mem {d : ShardDocument} (hd : d ∈ H.documents candidates)
    (hnodup : ((H.documents candidates).map ShardDocument.identity).Nodup) :
    ∃ c, lastOf Candidate.identity candidates d.identity = some c ∧ d = H.document candidates c := by
  obtain ⟨c, hc, rfl⟩ := List.mem_map.mp hd
  obtain ⟨c', hc'⟩ := Option.isSome_iff_exists.mp (lastOf_isSome_of_mem Candidate.identity hc)
  obtain ⟨hmem, hidentity, -⟩ := mem_documents_of_last (H := H) hc'
  exact ⟨c', hc', List.inj_on_of_nodup_map hnodup hd hmem hidentity.symm⟩

/-- Documents of two lists of candidates that have one identity and one hash are equal. -/
lemma document_eq_of_hash (hfree : H.CollisionFree) {candidates' : List Candidate}
    {c' : Candidate} {identity : DocumentIdentity}
    (hlast : lastOf Candidate.identity candidates identity = some c)
    (hlast' : lastOf Candidate.identity candidates' identity = some c')
    (hhash : H.candidateDocumentHash c = H.candidateDocumentHash c') :
    H.document candidates c = H.document candidates' c' := by
  obtain ⟨-, hidentity, htextHash⟩ := mem_documents_of_last (H := H) hlast
  obtain ⟨-, hidentity', htextHash'⟩ := mem_documents_of_last (H := H) hlast'
  obtain ⟨htext, hpath⟩ := hfree c c' hhash
  have huid : DocumentIdentity.mk c.kind c.uid = ⟨c'.kind, c'.uid⟩ := hidentity.trans hidentity'.symm
  obtain ⟨hkind, huid⟩ := DocumentIdentity.mk.inj huid
  have hhashes := htextHash.trans (hhash.trans htextHash'.symm)
  simp only [Hashing.document] at hhashes ⊢
  rw [hhashes, hkind, huid, hpath, htext]

lemma documentHashes_eq_some {g : Generation} {hashes : List (DocumentIdentity × String)}
    (h : documentHashes (some g) = some (some hashes)) :
    (g.documents.map ShardDocument.identity).Nodup ∧
      hashes = g.documents.map fun d => (d.identity, d.textHash) := by
  rw [documentHashes] at h
  split_ifs at h with hmalformed
  simp only [Bool.or_eq_true, not_or] at hmalformed
  exact ⟨by simpa using hmalformed.1.2, by simpa [eq_comm] using h⟩

lemma prepareReplaceScope_eq_some {metadata : ShardMetadata} {documents : List ShardDocument}
    {g : Generation} (h : prepareReplaceScope metadata documents = some g) :
    g = ⟨metadata, documents⟩ := by
  rw [prepareReplaceScope] at h
  split_ifs at h
  exact (Option.some.inj h).symm

lemma prepareUpdateScope_eq_some {current : Option Generation} {previous metadata : ShardMetadata}
    {upserts : List ShardDocument} {deletes : List DocumentIdentity} {g : Generation}
    (h : prepareUpdateScope current previous metadata upserts deletes = some g) :
    ∃ base, current = some base ∧ base.metadata = previous ∧
      (applyDelta base.documents upserts deletes).length = metadata.candidateCount ∧
      g = ⟨metadata, applyDelta base.documents upserts deletes⟩ := by
  unfold prepareUpdateScope at h
  split_ifs at h
  cases current with
  | none => simp at h
  | some base =>
    simp only at h
    split_ifs at h with hbad
    rw [not_or, not_not, not_not] at hbad
    exact ⟨base, rfl, hbad.1, hbad.2, (Option.some.inj h).symm⟩

end Documents

/-! ## The changes of one refresh -/

section Changes

variable {H : Hashing} {identity : PublicationIdentity} {scopeUid : String}
  {candidates oldCandidates : List Candidate} {previous metadata : ShardMetadata}

/-- The changes lead from a copy to the candidates if the hashes are those of its documents. -/
lemma perm_of_update (hfree : H.CollisionFree) {base g : Generation}
    {hashes : List (DocumentIdentity × String)}
    (hnodup : (base.documents.map ShardDocument.identity).Nodup)
    (hbase : base.documents.Perm (H.documents oldCandidates))
    (hhashes : hashes.Perm (base.documents.map fun d => (d.identity, d.textHash)))
    (hcount : metadata.candidateCount = candidates.length)
    (h : prepareUpdateScope (some base) previous metadata
      ((candidates.filter fun c =>
        hashes.lookup c.identity ≠ H.desiredDocuments candidates c.identity).map
          (H.document candidates))
      ((hashes.map Prod.fst).filter fun identity =>
        (H.desiredDocuments candidates identity).isNone) = some g) :
    g.documents.Perm (H.documents candidates) := by
  obtain ⟨base', heq, -, hlength, rfl⟩ := prepareUpdateScope_eq_some h
  obtain rfl := Option.some.inj heq
  have hupserts : (candidates.filter fun c =>
      hashes.lookup c.identity ≠ H.desiredDocuments candidates c.identity).map
        (H.document candidates) =
      (H.documents candidates).filter fun d =>
        hashes.lookup d.identity ≠ H.desiredDocuments candidates d.identity := by
    rw [Hashing.documents, List.filter_map]
    rfl
  simp only [hupserts, applyDelta] at hlength ⊢
  refine perm_patch hnodup.of_map ?_ ?_
  · intro d hd hkept
    rw [List.mem_append, not_or] at hkept
    have hmem : (d.identity, d.textHash) ∈ hashes := hhashes.mem_iff.mpr (List.mem_map_of_mem hd)
    -- the identity is not deleted, so there is a candidate with it
    have hsome : (H.desiredDocuments candidates d.identity).isSome := by
      by_contra hnone
      refine hkept.1 (List.mem_filter.mpr ⟨List.mem_map_of_mem hmem, ?_⟩)
      simpa using hnone
    obtain ⟨c, hlast, -⟩ := Option.map_eq_some_iff.mp (Option.some_get hsome).symm
    obtain ⟨hdocument, hidentity, -⟩ := mem_documents_of_last (H := H) hlast
    have hdesired : H.desiredDocuments candidates d.identity = some (H.candidateDocumentHash c) := by
      rw [Hashing.desiredDocuments, hlast]
      rfl
    -- and the hash under it is that of the candidate
    have hlookup : hashes.lookup d.identity = some (H.candidateDocumentHash c) := by
      by_contra hchanged
      refine hkept.2 (List.mem_map.mpr ⟨_, List.mem_filter.mpr ⟨hdocument, ?_⟩, hidentity⟩)
      simpa [hidentity, hdesired] using hchanged
    obtain ⟨front, back, hsplit, -⟩ := List.lookup_eq_some_iff.mp hlookup
    have hfound : (d.identity, H.candidateDocumentHash c) ∈ hashes := by
      rw [hsplit]
      exact List.mem_append_right _ List.mem_cons_self
    obtain ⟨d', hd', heq⟩ := List.mem_map.mp (hhashes.mem_iff.mp hfound)
    obtain ⟨hsame, hhash⟩ := Prod.mk.inj heq
    obtain rfl := List.inj_on_of_nodup_map hnodup hd' hd hsame
    have hnodup' := (hbase.map ShardDocument.identity).nodup_iff.mp hnodup
    obtain ⟨c', hlast', hd'⟩ := exists_last_of_mem (hbase.mem_iff.mp hd) hnodup'
    obtain ⟨-, -, htextHash⟩ := mem_documents_of_last (H := H) hlast'
    rw [hd'] at hhash
    rw [hd', document_eq_of_hash hfree hlast' hlast (htextHash.symm.trans hhash)]
    exact hdocument
  · rw [hlength, hcount, Hashing.documents, List.length_map]

end Changes

/-! ## What refreshes know -/

variable {γ ι : Type} {H : Hashing} {collect : Load γ (List Candidate)} {s s' : System γ ι}

/-- If the refresh has checked the selected shard, it had these metadata. -/
def Refresher.CheckedAgainst (metadata : Option ShardMetadata) : Refresher γ → Prop
  | .checked plan _ _ => metadata = plan.prior
  | _ => True

instance (metadata : Option ShardMetadata) (r : Refresher γ) :
    Decidable (r.CheckedAgainst metadata) :=
  match r with
  | .checked plan _ _ => inferInstanceAs (Decidable (metadata = plan.prior))
  | .idle | .listed .. | .stated .. | .collecting .. | .hashed .. | .prepared .. | .published .. =>
    isTrue True.intro

/-- The candidates that a refresh finds in a graph. -/
def candidatesOf (collect : Load γ (List Candidate)) (graph : γ) : List Candidate :=
  sortByUid (collect.eval graph)

namespace System

/-- The text changes only while there is a next epoch, and a publication finds the selected shard
still to be the one that the refresh has checked. -/
def Careful (s : System γ ι) : Action γ ι → Prop
  | .write graph _ => graph = s.graph ∨ s.desired < i64Max
  | .publish i .selected => (s.refreshers i).CheckedAgainst (s.current.map (·.metadata))
  | _ => True

instance [DecidableEq γ] (s : System γ ι) (a : Action γ ι) : Decidable (s.Careful a) :=
  match a with
  | .write graph _ => inferInstanceAs (Decidable (graph = s.graph ∨ s.desired < i64Max))
  | .publish i .selected =>
    inferInstanceAs (Decidable ((s.refreshers i).CheckedAgainst (s.current.map (·.metadata))))
  | .publish _ .busy | .publish _ .unselected | .setGraphGeneration _ | .listMetadata .. |
    .readStates _ | .takeEpoch _ | .read _ | .readDocuments _ | .prepare _ | .check _ |
    .acknowledge _ | .abandon _ | .garbageCollect | .crash => isTrue True.intro

variable (H collect) in
/-- The documents are those of the graph under the epoch of the shard. -/
structure Exact (s : System γ ι) (g : Generation) : Prop where
  epoch_le : g.metadata.scopeEpoch ≤ s.desired
  perm : g.documents.Perm (H.documents (candidatesOf collect (s.history g.metadata.scopeEpoch)))

/-- The selected shard has this epoch, or a later one. -/
def CurrentFrom (s : System γ ι) (epoch : ℕ) : Prop :=
  ∃ g, s.current = some g ∧ epoch ≤ g.metadata.scopeEpoch

/-- The metadata were those of the selected shard at some time. -/
def Listed (s : System γ ι) (prior : Option ShardMetadata) : Prop :=
  ∀ m, prior = some m → m.scopeEpoch ≤ s.desired ∧ s.CurrentFrom m.scopeEpoch

structure Planned (s : System γ ι) (plan : Plan) : Prop where
  listed : s.Listed plan.prior
  epoch_le : plan.epoch ≤ s.desired
  prior_le : ∀ m, plan.prior = some m → m.scopeEpoch ≤ plan.epoch

variable (H collect) in
/-- The hashes are those of an exact shard that was selected after the one with these metadata. -/
def HashesRead (s : System γ ι) (m : ShardMetadata) (hashes : List (DocumentIdentity × String)) :
    Prop :=
  ∃ g, documentHashes (some g) = some (some hashes) ∧ s.Exact H collect g ∧
    s.CurrentFrom g.metadata.scopeEpoch ∧ m.scopeEpoch ≤ g.metadata.scopeEpoch

variable (H collect) in
/-- What a refresh knows.  What it has read of the graph counts while its epoch is desired. -/
def Knows (s : System γ ι) : Refresher γ → Prop
  | .idle => True
  | .listed _ prior => s.Listed prior
  | .stated _ prior state _ =>
    s.Listed prior ∧ ∀ st, state = some st →
      st.desiredEpoch ≤ s.desired ∧ ∀ m, prior = some m → m.scopeEpoch ≤ st.desiredEpoch
  | .collecting plan rest =>
    s.Planned plan ∧ (plan.epoch = s.desired → rest.eval s.graph = collect.eval s.graph)
  | .hashed plan candidates priorDocuments =>
    s.Planned plan ∧ (plan.epoch = s.desired → candidates = candidatesOf collect s.graph) ∧
      ∀ m found, plan.prior = some m → priorDocuments = some found →
        ∃ hashes, found = some hashes ∧ s.HashesRead H collect m hashes
  | .prepared plan _ g =>
    s.Planned plan ∧ g.metadata.scopeEpoch = plan.epoch ∧
      (plan.epoch = s.desired → g.documents.Perm (H.documents (candidatesOf collect s.graph)))
  | .checked plan _ g =>
    s.Planned plan ∧ g.metadata.scopeEpoch = plan.epoch ∧ s.Exact H collect g
  | .published _ _ => True

variable (H collect) in
structure Inv (s : System γ ι) : Prop where
  desired_le : s.desired ≤ i64Max
  history_desired : s.history s.desired = s.graph
  current : ∀ g, s.current = some g → s.Exact H collect g
  orphans : ∀ g ∈ s.orphans, s.Exact H collect g
  refreshers : ∀ i, s.Knows H collect (s.refreshers i)

/-! ## Later states -/

/-- What no step takes back. -/
structure Later (s s' : System γ ι) : Prop where
  desired_le : s.desired ≤ s'.desired
  graph_eq : s'.desired = s.desired → s'.graph = s.graph
  history_eq : ∀ epoch ≤ s.desired, s'.history epoch = s.history epoch
  current : ∀ epoch, s.CurrentFrom epoch → s'.CurrentFrom epoch

lemma Later.refl (s : System γ ι) : Later s s := ⟨le_rfl, fun _ => rfl, fun _ _ => rfl, fun _ => id⟩

lemma Later.trans {s'' : System γ ι} (h : Later s s') (h' : Later s' s'') : Later s s'' where
  desired_le := h.desired_le.trans h'.desired_le
  graph_eq := by
    intro heq
    have h₁ := h.desired_le
    have h₂ := h'.desired_le
    rw [h'.graph_eq (by omega), h.graph_eq (by omega)]
  history_eq := by
    intro epoch hle
    rw [h'.history_eq epoch (hle.trans h.desired_le), h.history_eq epoch hle]
  current := fun epoch hfrom => h'.current epoch (h.current epoch hfrom)

variable {g : Generation} {plan : Plan}

lemma Exact.later (h : s.Exact H collect g) (hlater : Later s s') : s'.Exact H collect g where
  epoch_le := h.epoch_le.trans hlater.desired_le
  perm := by
    rw [hlater.history_eq _ h.epoch_le]
    exact h.perm

lemma Listed.later {prior : Option ShardMetadata} (h : s.Listed prior) (hlater : Later s s') :
    s'.Listed prior := by
  intro m hm
  obtain ⟨hle, hfrom⟩ := h m hm
  exact ⟨hle.trans hlater.desired_le, hlater.current _ hfrom⟩

lemma Planned.later (h : s.Planned plan) (hlater : Later s s') : s'.Planned plan :=
  ⟨h.listed.later hlater, h.epoch_le.trans hlater.desired_le, h.prior_le⟩

/-- If the epoch of a plan is still the desired one, the graph is the same. -/
lemma Planned.unchanged (h : s.Planned plan) (hlater : Later s s')
    (hepoch : plan.epoch = s'.desired) : plan.epoch = s.desired ∧ s'.graph = s.graph := by
  have h₁ := h.epoch_le
  have h₂ := hlater.desired_le
  exact ⟨by omega, hlater.graph_eq (by omega)⟩

lemma Knows.later {r : Refresher γ} (h : s.Knows H collect r) (hlater : Later s s') :
    s'.Knows H collect r := by
  cases r with
  | idle => exact True.intro
  | listed forceFull prior => exact Listed.later h hlater
  | stated forceFull prior state graphGeneration =>
    obtain ⟨hlisted, hstate⟩ := h
    refine ⟨hlisted.later hlater, fun st hst => ?_⟩
    obtain ⟨hle, hprior⟩ := hstate st hst
    exact ⟨hle.trans hlater.desired_le, hprior⟩
  | collecting plan rest =>
    obtain ⟨hplan, hrest⟩ := h
    refine ⟨hplan.later hlater, fun hepoch => ?_⟩
    obtain ⟨hepoch, hgraph⟩ := hplan.unchanged hlater hepoch
    rw [hgraph]
    exact hrest hepoch
  | hashed plan candidates priorDocuments =>
    obtain ⟨hplan, hcandidates, hhashes⟩ := h
    refine ⟨hplan.later hlater, fun hepoch => ?_, fun m found hm hfound => ?_⟩
    · obtain ⟨hepoch, hgraph⟩ := hplan.unchanged hlater hepoch
      rw [hgraph]
      exact hcandidates hepoch
    · obtain ⟨hashes, heq, g, hg, hexact, hfrom, hprior⟩ := hhashes m found hm hfound
      exact ⟨hashes, heq, g, hg, hexact.later hlater, hlater.current _ hfrom, hprior⟩
  | prepared plan candidates g =>
    obtain ⟨hplan, hg, hperm⟩ := h
    refine ⟨hplan.later hlater, hg, fun hepoch => ?_⟩
    obtain ⟨hepoch, hgraph⟩ := hplan.unchanged hlater hepoch
    rw [hgraph]
    exact hperm hepoch
  | checked plan candidates g =>
    obtain ⟨hplan, hg, hexact⟩ := h
    exact ⟨hplan.later hlater, hg, hexact.later hlater⟩
  | published plan candidates => exact True.intro

/-! ## Steps -/

lemma Inv.of_later (hinv : s.Inv H collect) (hlater : Later s s') (hle : s'.desired ≤ i64Max)
    (hhistory : s'.history s'.desired = s'.graph)
    (hcurrent : ∀ g, s'.current = some g → s'.Exact H collect g)
    (horphans : ∀ g ∈ s'.orphans, s'.Exact H collect g)
    (hrefreshers : ∀ i, s'.refreshers i = s.refreshers i ∨
      s'.Knows H collect (s'.refreshers i)) : s'.Inv H collect where
  desired_le := hle
  history_desired := hhistory
  current := hcurrent
  orphans := horphans
  refreshers := by
    intro i
    obtain heq | hknows := hrefreshers i
    · rw [heq]
      exact (hinv.refreshers i).later hlater
    · exact hknows

variable [DecidableEq ι] {i : ι} {r : Refresher γ}

lemma later_set : Later s (s.set i r) := ⟨le_rfl, fun _ => rfl, fun _ _ => rfl, fun _ => id⟩

lemma refreshers_update (heq : s'.refreshers = Function.update s.refreshers i r)
    (hr : s'.Knows H collect r) (j : ι) :
    s'.refreshers j = s.refreshers j ∨ s'.Knows H collect (s'.refreshers j) := by
  rw [heq]
  by_cases hj : j = i
  · subst hj
    exact .inr (by simpa using hr)
  · exact .inl (Function.update_of_ne hj ..)

lemma Inv.set (hinv : s.Inv H collect) (hr : s.Knows H collect r) : (s.set i r).Inv H collect :=
  hinv.of_later later_set hinv.desired_le hinv.history_desired
    (fun g hg => (hinv.current g hg).later later_set)
    (fun g hg => (hinv.orphans g hg).later later_set) (refreshers_update rfl (hr.later later_set))

omit [DecidableEq ι] in
lemma desired_mark (s : System γ ι) (graph : γ) (tombstone : Bool) :
    (s.mark graph tombstone).desired = min (s.desired + 1) i64Max := by
  cases hstate : s.state with
  | none => simp [System.mark, System.desired, markRegexScopeDirty, hstate]
  | some st => simp [System.mark, System.desired, markRegexScopeDirty, hstate]

omit [DecidableEq ι] in
lemma history_mark (s : System γ ι) (graph : γ) (tombstone : Bool) :
    (s.mark graph tombstone).history =
      Function.update s.history (s.mark graph tombstone).desired graph := rfl

omit [DecidableEq ι] in
/-- A marking that changes the text advances the epoch. -/
lemma Inv.later_mark (hinv : s.Inv H collect) {graph : γ} (tombstone : Bool)
    (h : graph = s.graph ∨ s.desired < i64Max) : Later s (s.mark graph tombstone) := by
  have hle := hinv.desired_le
  have hdesired := desired_mark s graph tombstone
  refine ⟨by omega, fun heq => ?_, fun epoch hepoch => ?_, fun _ => id⟩
  · obtain hgraph | hlt := h
    · exact hgraph
    · omega
  · rw [history_mark]
    by_cases hsame : epoch = (s.mark graph tombstone).desired
    · -- the epoch is the last one there is
      have hmax : epoch = s.desired := by omega
      obtain hgraph | hlt := h
      · rw [hsame, Function.update_self, ← hsame, hmax, hinv.history_desired, hgraph]
      · omega
    · exact Function.update_of_ne hsame _ _

omit [DecidableEq ι] in
lemma Inv.mark (hinv : s.Inv H collect) {graph : γ} (tombstone : Bool)
    (h : graph = s.graph ∨ s.desired < i64Max) : (s.mark graph tombstone).Inv H collect := by
  have hlater := hinv.later_mark tombstone h
  refine hinv.of_later hlater ?_ ?_ (fun g hg => (hinv.current g hg).later hlater)
    (fun g hg => (hinv.orphans g hg).later hlater) (fun _ => .inl rfl)
  · have hdesired := desired_mark s graph tombstone
    omega
  · rw [history_mark]
    exact Function.update_self ..

omit [DecidableEq ι] in
/-- What a refresh prepares are the documents of its candidates. -/
lemma Inv.perm_of_prepare (hfree : H.CollisionFree) (hinv : s.Inv H collect)
    {identity : PublicationIdentity} {scopeUid : String} {candidates : List Candidate}
    {priorDocuments : Option (Option (List (DocumentIdentity × String)))} {graphGeneration : ℕ}
    (hhashes : ∀ m found, plan.prior = some m → priorDocuments = some found →
      ∃ hashes, found = some hashes ∧ s.HashesRead H collect m hashes)
    (h : plan.prepare H identity scopeUid candidates priorDocuments graphGeneration s.current =
      some g) :
    g.metadata.scopeEpoch = plan.epoch ∧ g.documents.Perm (H.documents candidates) := by
  have hreplace : prepareReplaceScope
      (plan.metadata H identity scopeUid candidates graphGeneration) (H.documents candidates) =
        some g → g.metadata.scopeEpoch = plan.epoch ∧ g.documents.Perm (H.documents candidates) := by
    intro hnew
    obtain rfl := prepareReplaceScope_eq_some hnew
    exact ⟨rfl, .refl _⟩
  cases hprior : plan.prior with
  | none =>
    simp only [Plan.prepare, hprior] at h
    exact hreplace h
  | some m =>
    cases priorDocuments with
    | none =>
      simp only [Plan.prepare, hprior] at h
      exact hreplace h
    | some found =>
      simp only [Plan.prepare, hprior] at h
      split_ifs at h with hupdate
      · obtain ⟨hashes, rfl, read, hread, hexact, hfrom, hle⟩ := hhashes m found hprior rfl
        obtain ⟨base, hcurrent, hmetadata, -, hg⟩ := prepareUpdateScope_eq_some h
        -- the copied shard has the epoch of the one whose documents were read
        obtain ⟨base', hcurrent', hle'⟩ := hfrom
        obtain rfl := Option.some.inj (hcurrent.symm.trans hcurrent')
        have hepoch : read.metadata.scopeEpoch = base.metadata.scopeEpoch := by
          rw [hmetadata] at hle' ⊢
          exact hle'.antisymm hle
        have hbase := (hinv.current base hcurrent).perm
        have hperm : read.documents.Perm base.documents := by
          have hperm := hexact.perm
          rw [hepoch] at hperm
          exact hperm.trans hbase.symm
        obtain ⟨hnodup, rfl⟩ := documentHashes_eq_some hread
        rw [hcurrent] at h
        refine ⟨by rw [hg]; rfl, ?_⟩
        exact perm_of_update hfree ((hperm.map _).nodup_iff.mp hnodup) hbase (hperm.map _) rfl h
      · exact hreplace h

variable {identity : PublicationIdentity} {scopeUid : String}

/-- A step of a refresh that changes nothing but how far it has come. -/
lemma Inv.moved (hinv : s.Inv H collect) (h : some (s.set i r) = some s')
    (hr : s.Knows H collect r) : s'.Inv H collect ∧ Later s s' := by
  rw [← Option.some.inj h]
  exact ⟨hinv.set hr, later_set⟩

lemma Inv.step_listMetadata {forceFull : Bool} (hinv : s.Inv H collect)
    (h : s.step H identity scopeUid collect (.listMetadata i forceFull) = some s') :
    s'.Inv H collect ∧ Later s s' := by
  simp only [System.step] at h
  split at h
  · refine hinv.moved h ?_
    intro m hm
    obtain ⟨g, hg, rfl⟩ := Option.map_eq_some_iff.mp hm
    exact ⟨(hinv.current g hg).epoch_le, g, hg, le_rfl⟩
  · cases h

lemma Inv.step_readStates (hinv : s.Inv H collect)
    (h : s.step H identity scopeUid collect (.readStates i) = some s') :
    s'.Inv H collect ∧ Later s s' := by
  simp only [System.step] at h
  split at h
  · rename_i forceFull prior hr
    have hlisted : s.Listed prior := by
      have hknows := hinv.refreshers i
      rwa [hr] at hknows
    refine hinv.moved h ⟨hlisted, fun st hst => ?_⟩
    have hdesired : s.desired = st.desiredEpoch := by rw [System.desired, hst]; rfl
    exact ⟨hdesired.ge, fun m hm => hdesired ▸ (hlisted m hm).1⟩
  · cases h

lemma Inv.step_takeEpoch (hinv : s.Inv H collect)
    (h : s.step H identity scopeUid collect (.takeEpoch i) = some s') :
    s'.Inv H collect ∧ Later s s' := by
  simp only [System.step] at h
  split at h
  · rename_i forceFull prior state graphGeneration hr
    obtain ⟨hlisted, hstate⟩ : s.Knows H collect (.stated forceFull prior state graphGeneration) :=
      hr ▸ hinv.refreshers i
    split at h
    · rename_i st hst
      obtain ⟨hle, hprior⟩ := hstate st (Option.filter_eq_some_iff.mp hst).1
      exact hinv.moved h ⟨⟨hlisted, hle, hprior⟩, fun _ => rfl⟩
    · -- the refresh marks the scope itself
      have hmark := hinv.mark false (.inl (Eq.refl s.graph))
      have hlater := hinv.later_mark false (.inl (Eq.refl s.graph))
      have hlisted := hlisted.later hlater
      obtain ⟨hnext, hlater'⟩ := hmark.moved h
        ⟨⟨hlisted, le_rfl, fun m hm => (hlisted m hm).1⟩, fun _ => rfl⟩
      exact ⟨hnext, hlater.trans hlater'⟩
  · cases h

lemma Inv.step_read (hinv : s.Inv H collect)
    (h : s.step H identity scopeUid collect (.read i) = some s') :
    s'.Inv H collect ∧ Later s s' := by
  simp only [System.step] at h
  split at h
  · rename_i plan next hr
    obtain ⟨hplan, hrest⟩ : s.Knows H collect (.collecting plan (.read next)) :=
      hr ▸ hinv.refreshers i
    exact hinv.moved h ⟨hplan, fun hepoch => hrest hepoch⟩
  · cases h

lemma Inv.step_readDocuments (hinv : s.Inv H collect)
    (h : s.step H identity scopeUid collect (.readDocuments i) = some s') :
    s'.Inv H collect ∧ Later s s' := by
  simp only [System.step] at h
  split at h
  · rename_i plan found hr
    obtain ⟨hplan, hrest⟩ : s.Knows H collect (.collecting plan (.done found)) :=
      hr ▸ hinv.refreshers i
    split_ifs at h
    · exact hinv.moved h True.intro
    · refine hinv.moved h ⟨hplan, fun hepoch => ?_, fun m found' hm hfound => ?_⟩
      · rw [candidatesOf, ← hrest hepoch]
        rfl
      · obtain ⟨-, g, hg, hle⟩ := hplan.listed m hm
        rw [hg] at hfound
        cases found' with
        | none =>
          rw [documentHashes] at hfound
          split_ifs at hfound
          cases hfound
        | some hashes => exact ⟨hashes, rfl, g, hfound, hinv.current g hg, ⟨g, hg, le_rfl⟩, hle⟩
  · cases h

lemma Inv.step_prepare (hfree : H.CollisionFree) (hinv : s.Inv H collect)
    (h : s.step H identity scopeUid collect (.prepare i) = some s') :
    s'.Inv H collect ∧ Later s s' := by
  simp only [System.step] at h
  split at h
  · rename_i plan candidates priorDocuments hr
    obtain ⟨hplan, hcandidates, hhashes⟩ :
        s.Knows H collect (.hashed plan candidates priorDocuments) := hr ▸ hinv.refreshers i
    split at h
    · rename_i g hprepare
      obtain ⟨hepoch, hperm⟩ := hinv.perm_of_prepare hfree hhashes hprepare
      refine hinv.moved h ⟨hplan, hepoch, fun hdesired => ?_⟩
      rw [← hcandidates hdesired]
      exact hperm
    · exact hinv.moved h True.intro
  · cases h

lemma Inv.step_check (hinv : s.Inv H collect)
    (h : s.step H identity scopeUid collect (.check i) = some s') :
    s'.Inv H collect ∧ Later s s' := by
  simp only [System.step] at h
  split at h
  · rename_i plan candidates g hr
    obtain ⟨hplan, hepoch, hperm⟩ : s.Knows H collect (.prepared plan candidates g) :=
      hr ▸ hinv.refreshers i
    split_ifs at h with hcheck
    · have hdesired : plan.epoch = s.desired := by
        simp only [Bool.and_eq_true, Option.any_eq_true, beq_iff_eq] at hcheck
        obtain ⟨⟨st, hst, heq, -⟩, -⟩ := hcheck
        rw [System.desired, hst, ← heq]
        rfl
      have hexact : s.Exact H collect g := by
        refine ⟨hepoch ▸ hplan.epoch_le, ?_⟩
        rw [hepoch, hdesired, hinv.history_desired]
        exact hperm hdesired
      exact hinv.moved h ⟨hplan, hepoch, hexact⟩
    · exact hinv.moved h True.intro
  · cases h

lemma Inv.step_publish {outcome : PublishOutcome} (hinv : s.Inv H collect)
    (hcareful : Careful s (.publish i outcome))
    (h : s.step H identity scopeUid collect (.publish i outcome) = some s') :
    s'.Inv H collect ∧ Later s s' := by
  simp only [System.step] at h
  split at h
  · rename_i plan candidates g hr
    obtain ⟨hplan, hepoch, hexact⟩ : s.Knows H collect (.checked plan candidates g) :=
      hr ▸ hinv.refreshers i
    cases outcome with
    | busy => exact hinv.moved h True.intro
    | unselected =>
      obtain rfl := Option.some.inj h
      have hlater : Later s { s.set i .idle with orphans := g :: s.orphans } :=
        ⟨le_rfl, fun _ => rfl, fun _ _ => rfl, fun _ => id⟩
      refine ⟨hinv.of_later hlater hinv.desired_le hinv.history_desired
        (fun g' hg' => (hinv.current g' hg').later hlater) (fun g' hg' => ?_)
        (refreshers_update (r := .idle) rfl True.intro), hlater⟩
      obtain rfl | hg' := List.mem_cons.mp hg'
      · exact hexact.later hlater
      · exact (hinv.orphans g' hg').later hlater
    | selected =>
      obtain rfl := Option.some.inj h
      have hprior : s.current.map (·.metadata) = plan.prior := by
        rwa [Careful, hr] at hcareful
      have hlater : Later s { s.set i (.published plan candidates) with current := some g } := by
        refine ⟨le_rfl, fun _ => rfl, fun _ _ => rfl, ?_⟩
        rintro epoch ⟨base, hbase, hle⟩
        have hbase' := hplan.prior_le base.metadata (by rw [← hprior, hbase]; rfl)
        exact ⟨g, rfl, by omega⟩
      refine ⟨hinv.of_later hlater hinv.desired_le hinv.history_desired (fun g' hg' => ?_)
        (fun g' hg' => (hinv.orphans g' hg').later hlater)
        (refreshers_update (r := .published plan candidates) rfl True.intro), hlater⟩
      obtain rfl := Option.some.inj hg'
      exact hexact.later hlater
  · cases h

omit [DecidableEq ι] in
lemma acknowledgeRegexScope_desired {epoch count : ℕ} {digest : String} {st : ScopeState}
    (hle : s.desired ≤ i64Max)
    (h : acknowledgeRegexScope s.state epoch count digest = some (.acknowledged st)) :
    st.desiredEpoch = s.desired := by
  cases hstate : s.state with
  | none => simp [acknowledgeRegexScope, hstate] at h
  | some old =>
    have hdesired : s.desired = old.desiredEpoch := by rw [System.desired, hstate]; rfl
    simp only [acknowledgeRegexScope, hstate] at h
    split_ifs at h with hnewer hbad
    · cases h
    · rw [not_or, not_not] at hbad
      cases h
      change min epoch i64Max = s.desired
      omega

lemma Inv.step_acknowledge (hinv : s.Inv H collect)
    (h : s.step H identity scopeUid collect (.acknowledge i) = some s') :
    s'.Inv H collect ∧ Later s s' := by
  simp only [System.step] at h
  split at h
  · split at h
    · rename_i st hack
      obtain rfl := Option.some.inj h
      have hdesired : System.desired { s.set i .idle with state := some st } = s.desired :=
        acknowledgeRegexScope_desired hinv.desired_le hack
      have hlater : Later s { s.set i .idle with state := some st } :=
        ⟨hdesired.ge, fun _ => rfl, fun _ _ => rfl, fun _ => id⟩
      refine ⟨hinv.of_later hlater (hdesired.trans_le hinv.desired_le) ?_
        (fun g hg => (hinv.current g hg).later hlater)
        (fun g hg => (hinv.orphans g hg).later hlater)
        (refreshers_update (r := .idle) rfl True.intro), hlater⟩
      rw [hdesired]
      exact hinv.history_desired
    · exact hinv.moved h True.intro
  · cases h

omit [DecidableEq ι] in
lemma Inv.collected (hinv : s.Inv H collect) {current : Option Generation}
    {orphans : List Generation} (hfrom : ∀ g, s.current = some g → current = some g)
    (hcurrent : ∀ g, current = some g → s.Exact H collect g)
    (horphans : ∀ g ∈ orphans, s.Exact H collect g) :
    System.Inv H collect { s with current, orphans } ∧ Later s { s with current, orphans } := by
  have hlater : Later s { s with current, orphans } := by
    refine ⟨le_rfl, fun _ => rfl, fun _ _ => rfl, ?_⟩
    rintro epoch ⟨g, hg, hle⟩
    exact ⟨g, hfrom g hg, hle⟩
  exact ⟨hinv.of_later hlater hinv.desired_le hinv.history_desired
    (fun g hg => (hcurrent g hg).later hlater) (fun g hg => (horphans g hg).later hlater)
    (fun _ => .inl rfl), hlater⟩

lemma Inv.step_garbageCollect (hinv : s.Inv H collect)
    (h : s.step H identity scopeUid collect .garbageCollect = some s') :
    s'.Inv H collect ∧ Later s s' := by
  simp only [System.step] at h
  split at h
  · rename_i generation hcurrent horphans
    obtain rfl := Option.some.inj h
    refine hinv.collected (by simp [hcurrent]) (fun g hg => ?_) (by simp)
    obtain rfl := Option.some.inj hg
    exact hinv.orphans _ (by simp [horphans])
  · obtain rfl := Option.some.inj h
    exact ⟨hinv, .refl s⟩
  · rename_i selected hcurrent
    obtain rfl := Option.some.inj h
    exact hinv.collected (fun g => id) hinv.current (by simp)

/-- **What a careful step keeps**, and what it does not take back. -/
theorem Inv.step (hfree : H.CollisionFree) {a : Action γ ι} (hinv : s.Inv H collect)
    (hcareful : Careful s a) (h : s.step H identity scopeUid collect a = some s') :
    s'.Inv H collect ∧ Later s s' := by
  cases a with
  | write graph tombstone =>
    obtain rfl := Option.some.inj h
    exact ⟨hinv.mark tombstone hcareful, hinv.later_mark tombstone hcareful⟩
  | setGraphGeneration generation =>
    obtain rfl := Option.some.inj h
    have hlater : Later s { s with graphGeneration := generation } :=
      ⟨le_rfl, fun _ => rfl, fun _ _ => rfl, fun _ => id⟩
    exact ⟨hinv.of_later hlater hinv.desired_le hinv.history_desired
      (fun g hg => (hinv.current g hg).later hlater)
      (fun g hg => (hinv.orphans g hg).later hlater) (fun _ => .inl rfl), hlater⟩
  | listMetadata i forceFull => exact hinv.step_listMetadata h
  | readStates i => exact hinv.step_readStates h
  | takeEpoch i => exact hinv.step_takeEpoch h
  | read i => exact hinv.step_read h
  | readDocuments i => exact hinv.step_readDocuments h
  | prepare i => exact hinv.step_prepare hfree h
  | check i => exact hinv.step_check h
  | publish i outcome => exact hinv.step_publish hcareful h
  | acknowledge i => exact hinv.step_acknowledge h
  | abandon i => exact hinv.moved h True.intro
  | garbageCollect => exact hinv.step_garbageCollect h
  | crash =>
    obtain rfl := Option.some.inj h
    have hlater : Later s { s with refreshers := fun _ => .idle } :=
      ⟨le_rfl, fun _ => rfl, fun _ _ => rfl, fun _ => id⟩
    exact ⟨hinv.of_later hlater hinv.desired_le hinv.history_desired
      (fun g hg => (hinv.current g hg).later hlater)
      (fun g hg => (hinv.orphans g hg).later hlater) (fun _ => .inr True.intro), hlater⟩

omit [DecidableEq ι] in
lemma inv_init (graph : γ) : (System.init graph : System γ ι).Inv H collect where
  desired_le := Nat.zero_le _
  history_desired := rfl
  current := by simp [System.init]
  orphans := by simp [System.init]
  refreshers := fun _ => True.intro

/-- What holds at the end of a careful run from a state. -/
lemma Inv.run (hfree : H.CollisionFree) {actions : List (Action γ ι)} (hinv : s.Inv H collect)
    (hcareful : Along (System.step H identity scopeUid collect) Careful s actions)
    (hrun : run (System.step H identity scopeUid collect) s actions = some s') :
    s'.Inv H collect ∧ Later s s' := by
  refine hcareful.invariant (P := fun u => u.Inv H collect ∧ Later s u) hrun ⟨hinv, .refl s⟩ ?_
  intro u u' a _ ⟨hu, hlater⟩ ha hstep
  obtain ⟨hu', hlater'⟩ := hu.step hfree ha hstep
  exact ⟨hu', hlater.trans hlater'⟩

end System

/-! ## The main result -/

lemma regexShardTrusted_epoch {metadata : ShardMetadata} {state : ScopeState}
    {identity : PublicationIdentity} {graphGeneration : ℕ}
    (h : regexShardTrusted metadata state identity graphGeneration = true) :
    metadata.scopeEpoch = state.desiredEpoch := by
  simp only [regexShardTrusted, Bool.and_eq_true, beq_iff_eq] at h
  omega

def quoted (text : String) : List Char := (text.toList.flatMap fun c => ['x', c]) ++ ['.']

/-- In place of a hash the text itself. -/
def spelling : Hashing where
  textHash text := text
  documentHash text kind path := String.ofList (quoted text ++ (quoted kind ++ quoted path))
  digest documents := String.ofList (documents.flatMap fun d => quoted d.1 ++ quoted d.2)
  lower c := [c]

lemma quoted_append_inj {text text' : String} {rest rest' : List Char}
    (h : quoted text ++ rest = quoted text' ++ rest') : text = text' ∧ rest = rest' := by
  have hchars : ∀ cs cs' : List Char,
      (cs.flatMap fun c => ['x', c]) ++ '.' :: rest = (cs'.flatMap fun c => ['x', c]) ++ '.' :: rest' →
        cs = cs' ∧ rest = rest' := by
    intro cs
    induction cs with
    | nil =>
      intro cs' h
      cases cs' with
      | nil => simpa using h
      | cons c' cs' => simp at h
    | cons c cs ih =>
      intro cs' h
      cases cs' with
      | nil => simp at h
      | cons c' cs' =>
        simp only [List.flatMap_cons, List.cons_append, List.nil_append, List.cons.injEq,
          true_and] at h
        obtain ⟨rfl, rfl⟩ := ih cs' h.2
        exact ⟨by rw [h.1], rfl⟩
  obtain ⟨htext, hrest⟩ := hchars text.toList text'.toList (by simpa [quoted] using h)
  exact ⟨String.toList_inj.mp htext, hrest⟩

lemma spelling_collisionFree : spelling.CollisionFree := by
  intro c c' h
  have h := String.ofList_inj.mp h
  obtain ⟨htext, hrest⟩ := quoted_append_inj h
  obtain ⟨-, hpath⟩ := quoted_append_inj hrest
  have hpath : quoted (candidatePath c) ++ [] = quoted (candidatePath c') ++ [] := by simpa using hpath
  exact ⟨htext, (quoted_append_inj hpath).1⟩

/-- A scope with one note. -/
def note (text : String) : List Candidate := [⟨"n1", "Note", "n1.md", text⟩]

def readAll : Load (List Candidate) (List Candidate) := .read fun graph => .done graph

def store : PublicationIdentity := ⟨"brain", "publication"⟩

/-- A refresh as far as the shard is prepared, and the rest of it. -/
def building (i : ℕ) : List (Action (List Candidate) ℕ) :=
  [.listMetadata i false, .readStates i, .takeEpoch i, .read i, .readDocuments i, .prepare i]

def selecting (i : ℕ) : List (Action (List Candidate) ℕ) :=
  [.check i, .publish i .selected, .acknowledge i]

/-- A text is written and refreshed, and then another one. -/
def inTurn : List (Action (List Candidate) ℕ) :=
  [Action.write (note "old") false] ++ building 0 ++ selecting 0 ++ [Action.write (note "new") false] ++
    building 1 ++ selecting 1

/-- Two refreshes of the old text have passed their checks when the first one is selected.  The text
changes, and is refreshed.  Refresh `3`, which began with the first shard, reads the new epoch, the
new text and the hashes of the new shard.  Then the second shard of the old text is selected, and it
is what refresh `3` copies. -/
def racing : List (Action (List Candidate) ℕ) :=
  [Action.write (note "old") false] ++ building 0 ++ building 1 ++ [Action.check 1] ++ selecting 0 ++
    [Action.listMetadata 3 false, .write (note "new") false] ++ building 2 ++ selecting 2 ++
    [Action.readStates 3, .takeEpoch 3, .read 3, .readDocuments 3, .publish 1 .selected, .prepare 3] ++
    selecting 3

/-- At the last epoch a writer leaves the state as it was, so a shard that was trusted stays so
whatever the text becomes. -/
theorem trusted_after_last_epoch [DecidableEq ι] {state : ScopeState} {m : ShardMetadata}
    {graph : γ} {graphGeneration : ℕ} {identity : PublicationIdentity} {scopeUid : String}
    (hstate : s.state = some state) (hlast : state.desiredEpoch = i64Max)
    (htrusted : regexShardTrusted m state identity graphGeneration = true)
    (h : s.step H identity scopeUid collect (.write graph false) = some s') :
    s'.graph = graph ∧ ∃ state', s'.state = some state' ∧
      regexShardTrusted m state' identity graphGeneration = true := by
  obtain rfl := Option.some.inj h
  refine ⟨rfl, state, ?_, htrusted⟩
  have htombstone : state.tombstone = false := by
    simp only [regexShardTrusted, Bool.and_eq_true, Bool.not_eq_true'] at htrusted
    exact htrusted.1.1.1.1.1.1.1.1.1
  obtain ⟨desired, acknowledged, count, digest, tombstone⟩ := state
  simp only at hlast htombstone
  subst hlast htombstone
  simp [System.mark, markRegexScopeDirty, hstate]

end RegexRefresh
end NestWeaver
