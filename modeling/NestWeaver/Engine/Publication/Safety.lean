import NestWeaver.Engine.Publication.Invariant

/-!
# The pointer of a publication root is never left dangling

What holds of the root (`Root.Inv`) and what its session has found out (`Session.Inv`) is kept by every step.
-/

set_option linter.all false

namespace NestWeaver
namespace PublicationRoot

open Checked Transition

variable {υ β : Type} [DecidableEq υ] {crates : Crates υ β}

/-! ## The invariant -/

/-- A pointer that can be read, written with canonical texts, and the slot that it selects. -/
structure PointerKept (crates : Crates υ β) (root : Root υ β) (pointer : CurrentPublicationPointer) :
    Prop where
  valid : pointer.validate crates = .ok ()
  selected : ∃ c, pointer.publicationUuid = crates.text c
  previous : ∀ text ∈ pointer.expectedPreviousPublicationUuid, ∃ e, text = crates.text e
  slot : ∃ slot bytes, root.slots.lookup pointer.publicationUuid = some slot ∧ slot.manifest = some bytes ∧
    crates.blake3HexBytes bytes = pointer.manifestBlake3

/-- Neither the pointer nor another journal names the target. -/
structure Unclaimed (root : Root υ β) (key : υ) (target : String) : Prop where
  current : ∀ pointer ∈ root.current, pointer.publicationUuid ≠ target ∧
    pointer.expectedPreviousPublicationUuid ≠ some target
  others : ∀ key' envelope, root.Reads key' envelope → key' ≠ key →
    envelope.state.plan.targetPublicationUuid ≠ target

structure Root.Inv (crates : Crates υ β) (root : Root υ β) : Prop where
  journals : ∀ key envelope, root.Reads key envelope → Kept crates key envelope.state
  pointer : ∀ pointer ∈ root.current, PointerKept crates root pointer
  manifests : ∀ name slot, root.slots.lookup name = some slot → sealsAs crates slot name = true
  others : ∀ key envelope key' envelope', root.Reads key envelope → root.Reads key' envelope' → key' ≠ key →
    envelope'.state.plan.targetPublicationUuid ≠ envelope.state.plan.targetPublicationUuid
  staged : ∀ key envelope, root.Reads key envelope → envelope.state.phase.acceptsRescope = true →
    ∀ pointer ∈ root.current, pointer.publicationUuid ≠ envelope.state.plan.targetPublicationUuid ∧
      pointer.expectedPreviousPublicationUuid ≠ some envelope.state.plan.targetPublicationUuid

/-- What a session has found out. -/
def Session.Inv (crates : Crates υ β) (root : Root υ β) : Session υ β → Prop
  | .idle | .discarding _ => True
  | .creating key s => Kept crates key s ∧ s.phase = .planned ∧
      Unclaimed root key s.plan.targetPublicationUuid ∧ ∀ envelope, ¬root.Reads key envelope
  | .readying operationUuid revision _ =>
    ∀ key envelope, Root.operationKey crates operationUuid = .ok key → root.Reads key envelope →
      revision ≤ envelope.state.revision ∧
        (envelope.state.revision = revision → envelope.state.phase = .validating)
  | .selecting key s => Kept crates key s ∧ s.phase = .activating ∧
      (∀ envelope, root.Reads key envelope → envelope.state = s) ∧
      ∀ key' envelope, root.Reads key' envelope → key' ≠ key →
        envelope.state.plan.targetPublicationUuid ≠ s.plan.targetPublicationUuid
  | .completing operationUuid revision =>
    ∀ key envelope, Root.operationKey crates operationUuid = .ok key → root.Reads key envelope →
      revision ≤ envelope.state.revision ∧
        (envelope.state.revision = revision → envelope.state.phase = .activating ∧
          root.current.any (Root.selects crates envelope.state) = true)
  | .quarantined key dir => (∀ envelope, ¬root.Reads key envelope) ∧
      ∀ envelope, dir.journal = some envelope → Kept crates key envelope.state ∧
        (envelope.state.phase.acceptsRescope = true → ∀ pointer ∈ root.current,
          pointer.publicationUuid ≠ envelope.state.plan.targetPublicationUuid ∧
            pointer.expectedPreviousPublicationUuid ≠ some envelope.state.plan.targetPublicationUuid) ∧
        ∀ key' envelope', root.Reads key' envelope' → key' ≠ key →
          envelope'.state.plan.targetPublicationUuid ≠ envelope.state.plan.targetPublicationUuid
  | .pruning names => ∀ name ∈ names, ∀ pointer ∈ root.current, pointer.publicationUuid ≠ name ∧
      pointer.expectedPreviousPublicationUuid ≠ some name

structure System.Inv (crates : Crates υ β) (sys : System υ β) : Prop where
  root : sys.root.Inv crates
  session : ∀ session ∈ sys.session, session.Inv crates sys.root

/-! ## Changes of the root -/

namespace Root.Inv

variable {root : Root υ β} (hinv : root.Inv crates)
include hinv

/-- The target of an operation that stages its slot. -/
lemma unclaimed {key : υ} {envelope : ChecksummedOperationState} (h : root.Reads key envelope)
    (hstaging : envelope.state.phase.acceptsRescope = true) :
    Unclaimed root key envelope.state.plan.targetPublicationUuid where
  current := hinv.staged key envelope h hstaging
  others key' envelope' h' hne := hinv.others key envelope key' envelope' h h' hne

/-- Journals go. -/
lemma operations {operations' : AList fun _ : υ => OperationDir β}
    (h : ∀ key envelope, Reads { root with operations := operations' } key envelope →
      root.Reads key envelope) :
    Inv crates { root with operations := operations' } where
  journals key envelope hreads := hinv.journals key envelope (h _ _ hreads)
  pointer p hp := by
    have hkept := hinv.pointer p hp
    exact ⟨hkept.valid, hkept.selected, hkept.previous, hkept.slot⟩
  manifests := hinv.manifests
  others key envelope key' envelope' hreads hreads' hne :=
    hinv.others key envelope key' envelope' (h _ _ hreads) (h _ _ hreads') hne
  staged key envelope hreads hstaging := hinv.staged key envelope (h _ _ hreads) hstaging

/-- A journal is written whose target is its own. -/
lemma write {key : υ} {s : PublicationOperationState} (hkept : Kept crates key s)
    (hothers : ∀ key' envelope, root.Reads key' envelope → key' ≠ key →
      envelope.state.plan.targetPublicationUuid ≠ s.plan.targetPublicationUuid)
    (hstaged : s.phase.acceptsRescope = true → ∀ pointer ∈ root.current,
      pointer.publicationUuid ≠ s.plan.targetPublicationUuid ∧
        pointer.expectedPreviousPublicationUuid ≠ some s.plan.targetPublicationUuid) :
    Inv crates (root.persistState crates key s) where
  journals key' envelope hreads := by
    obtain ⟨rfl, rfl⟩ | ⟨-, hreads⟩ := reads_persistState.mp hreads
    · exact hkept
    · exact hinv.journals key' envelope hreads
  pointer p hp := by
    have hp := hinv.pointer p hp
    exact ⟨hp.valid, hp.selected, hp.previous, hp.slot⟩
  manifests := hinv.manifests
  others key₁ envelope₁ key₂ envelope₂ h₁ h₂ hne := by
    obtain ⟨heq₁, henv₁⟩ | ⟨hne₁, hold₁⟩ := reads_persistState.mp h₁
    · obtain ⟨heq₂, -⟩ | ⟨-, hold₂⟩ := reads_persistState.mp h₂
      · exact absurd (heq₂.trans heq₁.symm) hne
      · subst heq₁ henv₁
        exact hothers key₂ envelope₂ hold₂ hne
    · obtain ⟨-, henv₂⟩ | ⟨-, hold₂⟩ := reads_persistState.mp h₂
      · subst henv₂
        exact (hothers key₁ envelope₁ hold₁ hne₁).symm
      · exact hinv.others key₁ envelope₁ key₂ envelope₂ hold₁ hold₂ hne
  staged key' envelope hreads hstaging := by
    obtain ⟨rfl, rfl⟩ | ⟨-, hreads⟩ := reads_persistState.mp hreads
    · exact hstaged hstaging
    · exact hinv.staged key' envelope hreads hstaging

lemma moves {key : υ} {envelope : ChecksummedOperationState} {s' : PublicationOperationState}
    (hreads : root.Reads key envelope) (h : Moves crates envelope.state s') :
    Inv crates (root.persistState crates key s') := by
  refine hinv.write ((hinv.journals key envelope hreads).moves h) ?_ ?_
  · intro key' envelope' hreads' hne
    rw [h.target]
    exact hinv.others key envelope key' envelope' hreads hreads' hne
  · intro hstaging
    rw [h.target]
    exact hinv.staged key envelope hreads (h.staging hstaging)

/-- A slot is written; if the pointer selects it, the manifest stays. -/
lemma insertSlot {name : String} {slot : Slot β} (hseals : sealsAs crates slot name = true)
    (hmanifest : ∀ pointer ∈ root.current, pointer.publicationUuid = name →
      ∃ before, root.slots.lookup name = some before ∧ slot.manifest = before.manifest) :
    Inv crates { root with slots := root.slots.insert name slot } where
  journals := hinv.journals
  pointer p hp := by
    have hkept := hinv.pointer p hp
    refine ⟨hkept.valid, hkept.selected, hkept.previous, ?_⟩
    obtain ⟨before, bytes, hlookup, hbytes, hdigest⟩ := hkept.slot
    by_cases hname : p.publicationUuid = name
    · obtain ⟨before', hlookup', hsame⟩ := hmanifest p hp hname
      rw [hname, hlookup'] at hlookup
      obtain rfl := Option.some.inj hlookup
      refine ⟨slot, bytes, ?_, hsame.trans hbytes, hdigest⟩
      rw [hname]
      exact AList.lookup_insert _
    · exact ⟨before, bytes, by rw [AList.lookup_insert_ne hname, hlookup], hbytes, hdigest⟩
  manifests name' slot' hlookup := by
    by_cases hname : name' = name
    · subst hname
      obtain rfl := Option.some.inj ((AList.lookup_insert _).symm.trans hlookup)
      exact hseals
    · exact hinv.manifests name' slot' ((AList.lookup_insert_ne hname).symm.trans hlookup)
  others := hinv.others
  staged := hinv.staged

/-- A slot goes that the pointer does not select. -/
lemma eraseSlot {name : String} (hname : ∀ pointer ∈ root.current, pointer.publicationUuid ≠ name) :
    Inv crates (root.removeSlot name) where
  journals := hinv.journals
  pointer p hp := by
    have hkept := hinv.pointer p hp
    refine ⟨hkept.valid, hkept.selected, hkept.previous, ?_⟩
    obtain ⟨slot, bytes, hlookup, hbytes⟩ := hkept.slot
    exact ⟨slot, bytes, (AList.lookup_erase_ne (hname p hp)).trans hlookup, hbytes⟩
  manifests name' slot' hlookup := by
    by_cases hsame : name' = name
    · subst hsame
      rw [removeSlot, AList.lookup_erase] at hlookup
      cases hlookup
    · exact hinv.manifests name' slot' ((AList.lookup_erase_ne hsame).symm.trans hlookup)
  others := hinv.others
  staged := hinv.staged

/-- The pointer moves to a slot that no operation stages. -/
lemma setCurrent {current' : Option CurrentPublicationPointer}
    (hpointer : ∀ p ∈ current', PointerKept crates root p)
    (hstaged : ∀ p ∈ current', ∀ key envelope, root.Reads key envelope →
      envelope.state.phase.acceptsRescope = true →
      p.publicationUuid ≠ envelope.state.plan.targetPublicationUuid ∧
        p.expectedPreviousPublicationUuid ≠ some envelope.state.plan.targetPublicationUuid) :
    Inv crates { root with current := current' } where
  journals := hinv.journals
  pointer p hp := by
    have hkept := hpointer p hp
    exact ⟨hkept.valid, hkept.selected, hkept.previous, hkept.slot⟩
  manifests := hinv.manifests
  others := hinv.others
  staged key envelope hreads hstaging p hp := hstaged p hp key envelope hreads hstaging

end Root.Inv

/-! ## Moves of the pointer -/

namespace Root

variable {root root' : Root υ β}

lemma readCurrent_eq_ok {current : Option CurrentPublicationPointer}
    (h : root.readCurrent crates = .ok current) : current = root.current := by
  rw [readCurrent] at h
  cases hcurrent : root.current with
  | none =>
    rw [hcurrent] at h
    exact (Except.ok.inj h).symm
  | some p =>
    simp only [hcurrent, bind_eq_ok, pure_eq_ok] at h
    obtain ⟨-, -, h⟩ := h
    exact h.symm

/-- Canonical texts are told apart as the UUIDs are. -/
lemma parseUuidOption_eq_ok {name : String} {value : Option String} {uuid : Option υ}
    (hcanonical : ∀ text ∈ value, ∃ u, text = crates.text u)
    (h : parseUuidOption crates name value = .ok uuid) : value = uuid.map crates.text := by
  cases value with
  | none =>
    obtain rfl := Except.ok.inj h
    rfl
  | some text =>
    obtain ⟨u, rfl⟩ := hcanonical text rfl
    simp only [parseUuidOption, bind_eq_ok, parseUuid_eq_ok, crates.parse_text, pure_eq_ok,
      Except.ok.injEq] at h
    obtain ⟨_, ⟨rfl, -⟩, rfl⟩ := h
    rfl

lemma slotName_eq_ok {publicationUuid name : String} :
    slotName crates publicationUuid = .ok name ↔
      ∃ u, crates.parseStr publicationUuid = .ok u ∧ u ≠ crates.nil ∧ name = crates.text u := by
  simp only [slotName, bind_eq_ok, parseUuid_eq_ok, pure_eq_ok, and_assoc, eq_comm (a := name)]

lemma slot_eq_ok {u : υ} {slot : Slot β} (h : root.slot crates (crates.text u) = .ok slot) :
    root.slots.lookup (crates.text u) = some slot := by
  simp only [Root.slot, bind_eq_ok, slotName_eq_ok, crates.parse_text, Except.ok.injEq] at h
  obtain ⟨name, ⟨_, rfl, -, rfl⟩, h⟩ := h
  cases hlookup : root.slots.lookup (crates.text u) with
  | none => simp [hlookup] at h
  | some slot' =>
    rw [hlookup] at h
    exact congrArg some (Except.ok.inj h)

lemma slotManifest_eq_ok {whose : String} {u : υ} {bytes : β}
    (h : root.slotManifest crates whose (crates.text u) = .ok bytes) :
    ∃ slot, root.slots.lookup (crates.text u) = some slot ∧ slot.manifest = some bytes := by
  simp only [slotManifest, bind_eq_ok] at h
  obtain ⟨slot, hslot, h⟩ := h
  refine ⟨slot, slot_eq_ok hslot, ?_⟩
  cases hmanifest : slot.manifest with
  | none => simp [hmanifest] at h
  | some bytes' =>
    rw [hmanifest] at h
    exact congrArg some (Except.ok.inj h)

/-- **What a compare-and-swap has compared.** -/
lemma compareAndSwapCurrent_eq_ok {lease : Lease} {expected : Option String}
    {next : CurrentPublicationPointer} (hinv : root.Inv crates)
    (hexpected : ∀ text ∈ expected, ∃ u, text = crates.text u)
    (hnext : ∃ u, next.publicationUuid = crates.text u)
    (hprevious : ∀ text ∈ next.expectedPreviousPublicationUuid, ∃ u, text = crates.text u)
    (h : root.compareAndSwapCurrent crates lease expected next = .ok root') :
    root' = { root with current := some next } ∧ PointerKept crates root next ∧
      root.current.map (·.publicationUuid) = expected := by
  simp only [compareAndSwapCurrent, bind_eq_ok, bailIf_eq_ok, pure_eq_ok, not_not] at h
  obtain ⟨-, -, ⟨⟩, hvalid, -, -, -, -, -, -, -, -, -, -, current, hread, observed, hobserved, expected',
    hexpected', -, hsame, -, -, -, -, -, -, manifest, hmanifest, -, hdigest, rfl⟩ := h
  obtain rfl := readCurrent_eq_ok hread
  obtain ⟨u, hu⟩ := hnext
  rw [hu] at hmanifest
  obtain ⟨slot, hslot, hbytes⟩ := slotManifest_eq_ok hmanifest
  refine ⟨rfl, ⟨hvalid, ⟨u, hu⟩, hprevious, slot, manifest, by rw [hu, hslot], hbytes, hdigest⟩, ?_⟩
  have hcurrent : ∀ text ∈ root.current.map (·.publicationUuid), ∃ u, text = crates.text u := by
    intro text htext
    obtain ⟨p, hp, rfl⟩ := Option.map_eq_some_iff.mp htext
    exact (hinv.pointer p hp).selected
  rw [parseUuidOption_eq_ok hcurrent hobserved, parseUuidOption_eq_ok hexpected hexpected', hsame]

lemma new_eq_ok {identity : PublicationIdentity} {previous : Option String} {digest : String}
    {pointer : CurrentPublicationPointer}
    (h : CurrentPublicationPointer.new crates identity previous digest = .ok pointer) :
    pointer.publicationUuid = identity.publicationUuid ∧
      pointer.expectedPreviousPublicationUuid = previous ∧ pointer.rolledBackFromPublicationUuid = none ∧
      pointer.manifestBlake3 = digest := by
  simp only [CurrentPublicationPointer.new, bind_eq_ok, pure_eq_ok] at h
  obtain ⟨-, -, -, -, -, -, rfl⟩ := h
  exact ⟨rfl, rfl, rfl, rfl⟩

/-- **A selection** leaves the pointer alone or moves it from the expected publication to the target. -/
lemma selectCurrent_eq_ok {lease : Lease} {key : υ} {s : PublicationOperationState} (hinv : root.Inv crates)
    (hs : Kept crates key s) (h : root.selectCurrent crates lease s = .ok root') :
    root' = root ∨ ∃ p, root' = { root with current := some p } ∧ PointerKept crates root p ∧
      p.publicationUuid = s.plan.targetPublicationUuid ∧
      p.expectedPreviousPublicationUuid = s.plan.expectedCurrentPublicationUuid ∧
      p.rolledBackFromPublicationUuid = none ∧ s.validatedManifestBlake3 = some p.manifestBlake3 ∧
      root.current.map (·.publicationUuid) = s.plan.expectedCurrentPublicationUuid := by
  simp only [selectCurrent, bind_eq_ok] at h
  obtain ⟨current, hread, h⟩ := h
  obtain rfl := readCurrent_eq_ok hread
  by_cases hselects : root.current.any (selects crates s) = true
  · rw [if_pos hselects] at h
    exact .inl (Except.ok.inj h).symm
  · simp only [if_neg hselects, bind_eq_ok, bailIf_eq_ok, not_not] at h
    obtain ⟨digest, -, -, hdigest, p, hp, h⟩ := h
    obtain ⟨hpublication, hprevious, hrolled, hmanifest⟩ := new_eq_ok hp
    obtain ⟨rfl, hkept, hcurrent⟩ := compareAndSwapCurrent_eq_ok hinv hs.expected
      (by rw [hpublication]; exact hs.target) (by rw [hprevious]; exact hs.expected) h
    exact .inr ⟨p, rfl, hkept, hpublication, hprevious, hrolled, by rw [hdigest, hmanifest], hcurrent⟩

/-- **A rollback** removes the pointer or moves it to the predecessor that it names, once. -/
lemma rollbackCurrent_eq_ok {formatVersion : ℕ} {lease : Lease} {expected : String}
    (hinv : root.Inv crates) (h : root.rollbackCurrent crates formatVersion lease expected = .ok root') :
    ∃ current, root.current = some current ∧ current.rolledBackFromPublicationUuid = none ∧
      ((current.expectedPreviousPublicationUuid = none ∧ root' = { root with current := none }) ∨
        ∃ p, current.expectedPreviousPublicationUuid = some p.publicationUuid ∧
          root' = { root with current := some p } ∧ PointerKept crates root p ∧
          p.expectedPreviousPublicationUuid = none ∧
          p.rolledBackFromPublicationUuid = some current.publicationUuid) := by
  simp only [rollbackCurrent, bind_eq_ok] at h
  obtain ⟨-, -, read, hread, h⟩ := h
  obtain rfl := readCurrent_eq_ok hread
  cases hcurrent : root.current with
  | none => simp [hcurrent] at h
  | some current =>
    refine ⟨current, rfl, ?_⟩
    have hkept := hinv.pointer current hcurrent
    simp only [hcurrent, bind_eq_ok, bailIf_eq_ok] at h
    obtain ⟨-, hrolled, -, -, -, -, -, -, -, -, -, -, -, -, brain, -, -, -, h⟩ := h
    refine ⟨by simpa using hrolled, ?_⟩
    cases hprevious : current.expectedPreviousPublicationUuid with
    | none =>
      simp only [hprevious, pure_eq_ok] at h
      exact .inl ⟨rfl, h.symm⟩
    | some previousUuid =>
      refine .inr ?_
      obtain ⟨u, rfl⟩ := hkept.previous previousUuid hprevious
      simp only [hprevious, bind_eq_ok, bailIf_eq_ok, not_or, not_not] at h
      obtain ⟨bytes, hbytes, bundle, hbundle, -, -, published, hpublished, previous, hparsed, -, -, -,
        ⟨hsame, -⟩, -, -, -, -, p, hp, h⟩ := h
      obtain ⟨slot, hslot, hmanifest⟩ := slotManifest_eq_ok hbytes
      have hname : bundle.publicationUuid = crates.text u := by
        have hseals := hinv.manifests _ slot hslot
        simpa [sealsAs, hmanifest, hbundle, Except.toOption] using hseals
      simp only [CurrentPublicationPointer.afterRollback, bind_eq_ok, pure_eq_ok] at hp
      obtain ⟨pointer, hpointer, -, -, rfl⟩ := hp
      obtain ⟨hpublication, hnone, -, -⟩ := new_eq_ok hpointer
      have hexpected : ∀ text ∈ some current.publicationUuid, ∃ c, text = crates.text c := by
        intro text htext
        obtain rfl := Option.some.inj htext
        exact hkept.selected
      have hcas := fun hnext hprevious => compareAndSwapCurrent_eq_ok hinv hexpected hnext hprevious h
      obtain ⟨rfl, hnext, -⟩ := hcas ⟨u, hpublication.trans hname⟩ (by
        intro text htext
        have htext : pointer.expectedPreviousPublicationUuid = some text := htext
        rw [hnone] at htext
        cases htext)
      refine ⟨_, congrArg some ?_, rfl, hnext, hnone, rfl⟩
      exact (hpublication.trans hname).symm

end Root

/-- The slot that is selected can be found. -/
lemma PointerKept.slot_eq {root : Root υ β} {pointer : CurrentPublicationPointer}
    (h : PointerKept crates root pointer) :
    ∃ slot bytes, root.slot crates pointer.publicationUuid = .ok slot ∧ slot.manifest = some bytes ∧
      crates.blake3HexBytes bytes = pointer.manifestBlake3 := by
  obtain ⟨slot, bytes, hslot, hbytes⟩ := h.slot
  refine ⟨slot, bytes, ?_, hbytes⟩
  obtain ⟨c, hc⟩ := h.selected
  have hvalid := h.valid
  simp only [CurrentPublicationPointer.validate, PublicationIdentity.validate, bind_eq_ok, within_eq_ok,
    parseUuidAs_eq_ok, hc, crates.parse_text, Except.ok.injEq] at hvalid
  obtain ⟨-, -, -, ⟨brain, -, publication, ⟨rfl, hnil⟩, -⟩, -⟩ := hvalid
  rw [hc] at hslot ⊢
  simp only [Root.slot, bind_eq_ok]
  exact ⟨crates.text c, Root.slotName_eq_ok.mpr ⟨c, crates.parse_text c, hnil, rfl⟩, by rw [hslot]⟩

end PublicationRoot
end NestWeaver
