import NestWeaver.Engine.Publication.System

/-!
# What holds at a publication root

The pointer selects a slot whose manifest has the digest of the pointer.  No operation that still stages its
slot has the selected publication, its predecessor or the target of another operation for a target
(`Root.Inv`), and what a session has found out stays true until it acts on it (`Session.Inv`).
-/

set_option linter.all false

namespace NestWeaver
namespace PublicationRoot

open Checked Transition

variable {υ β : Type} [DecidableEq υ] {crates : Crates υ β}

/-! ## Journals -/

namespace Root

/-- The journal of an operation can be decoded. -/
def Reads (root : Root υ β) (key : υ) (envelope : ChecksummedOperationState) : Prop :=
  ∃ dir, root.operations.lookup key = some dir ∧ dir.journal = some envelope

variable {root : Root υ β} {key : υ} {envelope : ChecksummedOperationState}

lemma Reads.unique {envelope' : ChecksummedOperationState} (h : root.Reads key envelope)
    (h' : root.Reads key envelope') : envelope = envelope' := by
  obtain ⟨dir, hdir, hjournal⟩ := h
  obtain ⟨dir', hdir', hjournal'⟩ := h'
  obtain rfl := Option.some.inj (hdir.symm.trans hdir')
  exact Option.some.inj (hjournal.symm.trans hjournal')

lemma reads_insert {operation : υ} {dir : OperationDir β} :
    Reads { root with operations := root.operations.insert operation dir } key envelope ↔
      (key = operation ∧ dir.journal = some envelope) ∨ (key ≠ operation ∧ root.Reads key envelope) := by
  by_cases hkey : key = operation
  · subst hkey
    simp [Reads, AList.lookup_insert]
  · simp [Reads, AList.lookup_insert_ne hkey, hkey]

lemma reads_removeOperation {operation : υ} :
    (root.removeOperation operation).Reads key envelope ↔ key ≠ operation ∧ root.Reads key envelope := by
  by_cases hkey : key = operation
  · subst hkey
    simp [Reads, removeOperation, AList.lookup_erase]
  · simp [Reads, removeOperation, AList.lookup_erase_ne hkey, hkey]

lemma reads_persistState {operation : υ} {s : PublicationOperationState} :
    (root.persistState crates operation s).Reads key envelope ↔
      (key = operation ∧ envelope = ⟨stateChecksum crates s, s⟩) ∨
        (key ≠ operation ∧ root.Reads key envelope) := by
  rw [persistState, reads_insert]
  simp only [Option.some.injEq, eq_comm (a := envelope)]

lemma operationKey_eq_ok {operationUuid : String} :
    operationKey crates operationUuid = .ok key ↔
      crates.parseStr operationUuid = .ok key ∧ key ≠ crates.nil :=
  parseUuid_eq_ok crates.toLibraries

/-- What is loaded is what can be decoded in the directory of the operation. -/
lemma reads_of_load {operationUuid : String} {s : PublicationOperationState}
    (h : root.loadOperation crates operationUuid = .ok s) :
    ∃ key envelope, operationKey crates operationUuid = .ok key ∧ root.Reads key envelope ∧
      envelope.state = s := by
  simp only [loadOperation, bind_eq_ok] at h
  obtain ⟨-, -, key, hkey, h⟩ := h
  cases hdir : root.operations.lookup key with
  | none => simp [hdir] at h
  | some dir =>
    simp only [hdir, loadFrom] at h
    cases hjournal : dir.journal with
    | none => simp [hjournal] at h
    | some envelope =>
      simp only [hjournal, bind_eq_ok, pure_eq_ok] at h
      obtain ⟨-, -, hs⟩ := h
      exact ⟨key, envelope, hkey, ⟨dir, hdir, hjournal⟩, hs⟩

lemma updateOperation_eq_ok {operationUuid : String} {update : Update} {root' : Root υ β}
    {s' : PublicationOperationState}
    (h : root.updateOperation crates operationUuid update = .ok (root', s')) :
    ∃ key envelope, operationKey crates operationUuid = .ok key ∧ root.Reads key envelope ∧
      update envelope.state = .ok s' ∧ root' = root.persistState crates key s' := by
  simp only [updateOperation, bind_eq_ok, pure_eq_ok, Prod.mk.injEq] at h
  obtain ⟨key, hkey, s, hload, next, hnext, rfl, rfl⟩ := h
  obtain ⟨key', envelope, hkey', hreads, rfl⟩ := reads_of_load hload
  obtain rfl : key = key' := Except.ok.inj (hkey.symm.trans hkey')
  exact ⟨key, envelope, hkey, hreads, hnext, rfl⟩

end Root

/-- A journal as a rebuild keeps it. -/
structure Kept (crates : Crates υ β) (key : υ) (s : PublicationOperationState) : Prop where
  version : s.stateVersion = operationStateVersion
  valid : s.plan.validate crates.toLibraries = .ok ()
  operation : s.plan.operationUuid = crates.text key
  target : ∃ t, s.plan.targetPublicationUuid = crates.text t
  expected : ∀ text ∈ s.plan.expectedCurrentPublicationUuid, ∃ e, text = crates.text e
  staged : s.phase.acceptsRescope = true → s.validatedManifestBlake3 = none
  digest : s.phase = .ready ∨ s.phase = .activating ∨ s.phase = .activated →
    s.validatedManifestBlake3.isSome = true

/-- A revision of a journal that a rebuild writes: what is sealed stays sealed, with its digest. -/
structure Moves (crates : Crates υ β) (s s' : PublicationOperationState) : Prop
    extends Succeeds crates.toLibraries s s' where
  sealed : s.phase.acceptsRescope = false → s'.validatedManifestBlake3 = s.validatedManifestBlake3
  staged : s'.phase.acceptsRescope = true →
    s'.validatedManifestBlake3 = s.validatedManifestBlake3 ∨ s'.validatedManifestBlake3 = none
  digest : s.phase.acceptsRescope = true → s'.phase = .ready → s'.validatedManifestBlake3.isSome = true

/-- An update that a checkpoint of a rebuild makes while it stages the slot, or to cancel. -/
structure Stages (s next : PublicationOperationState) : Prop where
  digest : next.validatedManifestBlake3 = s.validatedManifestBlake3
  phase : next.phase = s.phase ∨ next.phase.acceptsRescope = true ∨ next.phase = .cancelled

section

variable {s s' : PublicationOperationState} {key : υ} {now expectedRevision : ℕ}

lemma acceptsRescope_of_successor {p q : PublicationPhase} (h : p.successor = some q)
    (hq : q.acceptsRescope = true) : p.acceptsRescope = true := by
  cases p with
  | ready | activating | activated | cancelled =>
    cases q <;> simp_all [PublicationPhase.successor, PublicationPhase.acceptsRescope]
  | planned | graph | textSearch | regex | embeddings | metadata | validating => rfl

/-- The phase after staging. -/
lemma ready_of_successor {p q : PublicationPhase} (h : p.successor = some q)
    (hp : p.acceptsRescope = true) (hq : q.acceptsRescope = false) : q = .ready := by
  cases p <;> cases q <;> simp_all [PublicationPhase.successor, PublicationPhase.acceptsRescope]

/-- The phases of a validated slot. -/
lemma not_acceptsRescope {p : PublicationPhase} (h : p = .ready ∨ p = .activating ∨ p = .activated) :
    p.acceptsRescope = false := by
  obtain rfl | rfl | rfl := h <;> rfl

/-- Staging does not begin again. -/
lemma Succeeds.staging {lib : Libraries υ β} (h : Succeeds lib s s')
    (hs' : s'.phase.acceptsRescope = true) : s.phase.acceptsRescope = true := by
  obtain hsame | hnext | ⟨hcancelled, -⟩ | ⟨hrescope, -⟩ := h.phase
  · rwa [hsame] at hs'
  · exact acceptsRescope_of_successor hnext hs'
  · rw [hcancelled] at hs'
    cases hs'
  · exact hrescope

lemma Moves.of_stages (hsucceeds : Succeeds crates.toLibraries s s') (h : Stages s s') :
    Moves crates s s' where
  toSucceeds := hsucceeds
  sealed _ := h.digest
  staged _ := .inl h.digest
  digest hstaging hready := by
    obtain hsame | hstages | hcancelled := h.phase
    · rw [← hsame, hready] at hstaging
      cases hstaging
    · rw [hready] at hstages
      cases hstages
    · rw [hready] at hcancelled
      cases hcancelled

lemma Moves.of_checkpoint {update : Update}
    (h : checkpoint crates.toLibraries now expectedRevision update s = .ok s')
    (hupdate : ∀ next, update s = .ok next → Stages s next) :
    Moves crates s s' ∧ (s'.phase = s.phase ∨ s'.phase.acceptsRescope = true ∨ s'.phase = .cancelled) := by
  obtain ⟨-, hsucceeds, next, hnext, -, rfl⟩ := checkpoint_eq_ok h
  have hstages := hupdate next hnext
  exact ⟨Moves.of_stages hsucceeds ⟨hstages.digest, hstages.phase⟩, hstages.phase⟩

/-- **What a call of a rebuild persists.** -/
lemma JournalCall.moves {c : JournalCall} (hpermitted : c.permitted = true)
    (h : c.apply crates now expectedRevision s = .ok s') :
    Moves crates s s' ∧ (s'.phase = s.phase ∨ s'.phase.acceptsRescope = true ∨ s'.phase = .cancelled) := by
  cases c with
  | advance phase =>
    refine Moves.of_checkpoint h fun next hnext => ?_
    simp only [advancePhase, bind_eq_ok, bailIf_eq_ok, pure_eq_ok] at hnext
    obtain ⟨-, -, -, -, -, -, rfl⟩ := hnext
    exact ⟨rfl, .inr (.inl hpermitted)⟩
  | progress p =>
    refine Moves.of_checkpoint h fun next hnext => ?_
    simp only [updateProgress, bind_eq_ok, bailIf_eq_ok, pure_eq_ok] at hnext
    obtain ⟨-, -, -, -, rfl⟩ := hnext
    exact ⟨rfl, .inl rfl⟩
  | artifact path blake3 =>
    refine Moves.of_checkpoint h fun next hnext => ?_
    simp only [recordArtifact, validateRelativePath, validateDigest, bind_eq_ok, bailIf_eq_ok,
      pure_eq_ok] at hnext
    obtain ⟨-, -, -, -, -, -, -, -, rfl⟩ := hnext
    exact ⟨rfl, .inl rfl⟩
  | requestCancel =>
    refine Moves.of_checkpoint h fun next hnext => ?_
    simp only [PublicationRoot.requestCancel, bind_eq_ok, bailIf_eq_ok, pure_eq_ok] at hnext
    obtain ⟨-, -, rfl⟩ := hnext
    exact ⟨rfl, .inl rfl⟩
  | acknowledgeCancel =>
    refine Moves.of_checkpoint h fun next hnext => ?_
    simp only [PublicationRoot.acknowledgeCancel, bind_eq_ok, bailIf_eq_ok, pure_eq_ok] at hnext
    obtain ⟨-, -, rfl⟩ := hnext
    exact ⟨rfl, .inr (.inr rfl)⟩
  | fail code message retryable =>
    refine Moves.of_checkpoint h fun next hnext => ?_
    simp only [recordFailure, bind_eq_ok, bailIf_eq_ok, pure_eq_ok] at hnext
    obtain ⟨-, -, -, -, rfl⟩ := hnext
    exact ⟨rfl, .inl rfl⟩
  | resume requested =>
    refine Moves.of_checkpoint h fun next hnext => ?_
    simp only [PublicationRoot.resume, bind_eq_ok, bailIf_eq_ok, pure_eq_ok] at hnext
    obtain ⟨-, -, -, -, rfl⟩ := hnext
    exact ⟨rfl, .inl rfl⟩
  | baseGeneration generation =>
    refine Moves.of_checkpoint h fun next hnext => ?_
    simp only [recordCodeLinkBaseGeneration, bind_eq_ok, bailIf_eq_ok, pure_eq_ok] at hnext
    obtain ⟨-, -, rfl⟩ := hnext
    exact ⟨rfl, .inl rfl⟩
  | rescope requested invalidated =>
    simp only [JournalCall.apply, PublicationRoot.rescope, bind_eq_ok, bailIf_eq_ok,
      checkRevision_eq_ok, PublicationOperationState.stamp, pure_eq_ok] at h
    obtain ⟨-, -, -, -, -, haccepts, -, -, -, -, ⟨⟩, hvalid, -, -, rfl⟩ := h
    have hstaging : s.phase.acceptsRescope = true := by
      by_contra hno
      exact haccepts (.inl (by simpa using hno))
    refine ⟨⟨⟨rfl, le_max_right _ _, fun h => h, rfl, hvalid, ?_, fun hends => ?_⟩,
      fun hsealed => ?_, fun _ => .inr rfl, fun _ hready => ?_⟩, ?_⟩
    · by_cases hplanned : s.phase = .planned
      · exact .inl (by simp [hplanned])
      · exact .inr (.inr (.inr ⟨hstaging, by simp [hplanned], rfl⟩))
    · cases hphase : s.phase <;> simp_all [PublicationPhase.isTerminal, PublicationPhase.acceptsRescope]
    · rw [hstaging] at hsealed
      cases hsealed
    · by_cases hplanned : s.phase = .planned
      · simp [hplanned] at hready
      · simp [hplanned] at hready
    · by_cases hplanned : s.phase = .planned
      · exact .inl (by simp [hplanned])
      · exact .inr (.inl (by simp [hplanned, PublicationPhase.acceptsRescope]))

/-- A cancellation is requested in the phase that the journal is in. -/
lemma requestCancel_phase
    (h : JournalCall.requestCancel.apply crates now expectedRevision s = .ok s') : s'.phase = s.phase := by
  obtain ⟨-, -, next, hnext, -, rfl⟩ := checkpoint_eq_ok h
  simp only [PublicationRoot.requestCancel, bind_eq_ok, bailIf_eq_ok, pure_eq_ok] at hnext
  obtain ⟨-, -, rfl⟩ := hnext
  rfl

/-- The checkpoint of `mark_ready`, in the phase that it was checked in. -/
lemma markReady_moves {digest : String} (hphase : s.phase = .validating)
    (h : checkpoint crates.toLibraries now expectedRevision (markReady digest) s = .ok s') :
    Moves crates s s' := by
  obtain ⟨-, hsucceeds, next, hnext, -, rfl⟩ := checkpoint_eq_ok h
  obtain rfl := Except.ok.inj hnext
  refine ⟨hsucceeds, fun hsealed => ?_, fun hstaging => ?_, fun _ _ => rfl⟩
  · rw [hphase] at hsealed
    cases hsealed
  · cases hstaging

/-- A checkpoint that leaves the digest alone, of an operation whose slot is sealed. -/
lemma Moves.of_sealed {update : Update} (hsealed : s.phase.acceptsRescope = false)
    (hupdate : ∀ next, update s = .ok next → next.validatedManifestBlake3 = s.validatedManifestBlake3)
    (h : checkpoint crates.toLibraries now expectedRevision update s = .ok s') : Moves crates s s' := by
  obtain ⟨-, hsucceeds, next, hnext, -, rfl⟩ := checkpoint_eq_ok h
  have hdigest := hupdate next hnext
  refine ⟨hsucceeds, fun _ => hdigest, fun _ => .inl hdigest, fun hstaging => ?_⟩
  rw [hsealed] at hstaging
  cases hstaging

lemma Moves.target (h : Moves crates s s') :
    s'.plan.targetPublicationUuid = s.plan.targetPublicationUuid := by
  rw [h.plan]

/-- **A journal stays as a rebuild keeps it.** -/
lemma Kept.moves (hs : Kept crates key s) (h : Moves crates s s') : Kept crates key s' where
  version := h.version hs.version
  valid := h.valid
  operation := by
    rw [h.plan]
    exact hs.operation
  target := by
    rw [h.plan]
    exact hs.target
  expected := by
    rw [h.plan]
    exact hs.expected
  staged hstaging := by
    obtain hsame | hnone := h.staged hstaging
    · rw [hsame]
      exact hs.staged (h.staging hstaging)
    · exact hnone
  digest hphase := by
    cases hstaging : s.phase.acceptsRescope with
    | false =>
      rw [h.sealed hstaging]
      refine hs.digest ?_
      obtain hsame | hnext | ⟨hcancelled, -⟩ | ⟨hrescope, -⟩ := h.phase
      · rwa [hsame] at hphase
      · cases hp : s.phase <;> simp_all [PublicationPhase.successor, PublicationPhase.acceptsRescope]
      · rw [hcancelled] at hphase
        simp at hphase
      · rw [hstaging] at hrescope
        cases hrescope
    | true =>
      have hsealed := not_acceptsRescope hphase
      refine h.digest hstaging ?_
      obtain hsame | hnext | ⟨hcancelled, -⟩ | ⟨-, hgraph, -⟩ := h.phase
      · rw [hsame, hstaging] at hsealed
        cases hsealed
      · exact ready_of_successor hnext hstaging hsealed
      · rw [hcancelled] at hphase
        simp at hphase
      · rw [hgraph] at hphase
        simp at hphase

end

end PublicationRoot
end NestWeaver
