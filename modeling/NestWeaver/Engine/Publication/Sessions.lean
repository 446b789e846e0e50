import NestWeaver.Engine.Publication.Safety

/-!
# What a step does to a publication root

Each step changes the root in one of few ways (`Change`), whatever sessions and other processes do in between,
and the invariant is kept.
-/

set_option linter.all false

namespace NestWeaver
namespace PublicationRoot

open Checked Transition

variable {υ β : Type} [DecidableEq υ] {crates : Crates υ β}

/-! ## Other processes -/

/-- A change by another process than the session: journals go, or get a later revision under their lock. -/
structure Foreign (locked : Option υ) (root root' : Root υ β) : Prop where
  current : root'.current = root.current
  reads : ∀ key envelope', root'.Reads key envelope' → ∃ envelope, root.Reads key envelope ∧
    envelope'.state.plan.targetPublicationUuid = envelope.state.plan.targetPublicationUuid ∧
    (envelope' = envelope ∨
      (locked ≠ some key ∧ envelope.state.revision < envelope'.state.revision))

/-- What a session has found out stays true. -/
lemma Session.Inv.foreign {session : Session υ β} {root root' : Root υ β} (hinv : session.Inv crates root)
    (h : Foreign session.lockedJournal root root') : session.Inv crates root' := by
  have hothers : ∀ key target, (∀ key' envelope, root.Reads key' envelope → key' ≠ key →
      envelope.state.plan.targetPublicationUuid ≠ target) →
      ∀ key' envelope, root'.Reads key' envelope → key' ≠ key →
        envelope.state.plan.targetPublicationUuid ≠ target := by
    intro key target hall key' envelope' hreads' hne
    obtain ⟨envelope, hreads, htarget, -⟩ := h.reads key' envelope' hreads'
    rw [htarget]
    exact hall key' envelope hreads hne
  have hunread : ∀ key, (∀ envelope, ¬root.Reads key envelope) → ∀ envelope, ¬root'.Reads key envelope := by
    intro key hnone envelope' hreads'
    obtain ⟨envelope, hreads, -⟩ := h.reads key envelope' hreads'
    exact hnone envelope hreads
  cases session with
  | idle | discarding key => trivial
  | creating key s =>
    obtain ⟨hkept, hplanned, hunclaimed, hnone⟩ := hinv
    refine ⟨hkept, hplanned, ⟨?_, hothers key _ hunclaimed.others⟩, hunread key hnone⟩
    rw [h.current]
    exact hunclaimed.current
  | readying operationUuid revision digest =>
    intro key envelope' hkey hreads'
    obtain ⟨envelope, hreads, -, rfl | ⟨-, hlater⟩⟩ := h.reads key envelope' hreads'
    · exact hinv key _ hkey hreads
    · have hle := (hinv key envelope hkey hreads).1
      exact ⟨by omega, fun heq => by omega⟩
  | selecting key s =>
    obtain ⟨hkept, hphase, hjournal, hall⟩ := hinv
    refine ⟨hkept, hphase, fun envelope' hreads' => ?_, hothers key _ hall⟩
    obtain ⟨envelope, hreads, -, rfl | ⟨hlocked, -⟩⟩ := h.reads key envelope' hreads'
    · exact hjournal _ hreads
    · exact absurd rfl hlocked
  | completing operationUuid revision =>
    intro key envelope' hkey hreads'
    obtain ⟨envelope, hreads, -, rfl | ⟨-, hlater⟩⟩ := h.reads key envelope' hreads'
    · rw [h.current]
      exact hinv key _ hkey hreads
    · have hle := (hinv key envelope hkey hreads).1
      exact ⟨by omega, fun heq => by omega⟩
  | quarantined key dir =>
    obtain ⟨hnone, hdir⟩ := hinv
    refine ⟨hunread key hnone, fun envelope hjournal => ?_⟩
    obtain ⟨hkept, hstaged, hall⟩ := hdir envelope hjournal
    rw [h.current]
    exact ⟨hkept, hstaged, hothers key _ hall⟩
  | pruning names =>
    intro name hname
    rw [h.current]
    exact hinv name hname

/-! ## Changes -/

/-- What a step may do to the root. -/
inductive Change (crates : Crates υ β) (root : Root υ β) (session : Option (Session υ β)) :
    Action υ β → Root υ β → Prop
  | same (a : Action υ β) : Change crates root session a root
  /-- The journal of an operation gets its next revision; it is `Activated` only while the pointer selects
  its target. -/
  | moves (a : Action υ β) {key : υ} {envelope : ChecksummedOperationState} {s' : PublicationOperationState}
      (reads : root.Reads key envelope) (moves : Moves crates envelope.state s')
      (activated : s'.phase = .activated → envelope.state.phase = .activated ∨
        (envelope.state.phase = .activating ∧
          root.current.any (Root.selects crates envelope.state) = true)) :
      Change crates root session a (root.persistState crates key s')
  /-- The journal of a new operation. -/
  | appears (a : Action υ β) {key : υ} {s : PublicationOperationState} (kept : Kept crates key s)
      (planned : s.phase = .planned) (unclaimed : Unclaimed root key s.plan.targetPublicationUuid)
      (new : ∀ envelope, ¬root.Reads key envelope) : Change crates root session a (root.persistState crates key s)
  /-- Journals go. -/
  | operations (a : Action υ β) {operations' : AList fun _ : υ => OperationDir β}
      (fewer : ∀ key envelope, Root.Reads { root with operations := operations' } key envelope →
        root.Reads key envelope) :
      Change crates root session a { root with operations := operations' }
  /-- A directory that was moved away is moved back. -/
  | restored (a : Action υ β) {key : υ} {dir : OperationDir β}
      (quarantined : session = some (.quarantined key dir)) (gone : ∀ envelope, ¬root.Reads key envelope)
      (journal : ∀ envelope, dir.journal = some envelope → Kept crates key envelope.state ∧
        (envelope.state.phase.acceptsRescope = true → ∀ pointer ∈ root.current,
          pointer.publicationUuid ≠ envelope.state.plan.targetPublicationUuid ∧
            pointer.expectedPreviousPublicationUuid ≠ some envelope.state.plan.targetPublicationUuid) ∧
        ∀ key' envelope', root.Reads key' envelope' → key' ≠ key →
          envelope'.state.plan.targetPublicationUuid ≠ envelope.state.plan.targetPublicationUuid) :
      Change crates root session a { root with operations := root.operations.insert key dir }
  /-- A slot is staged that the pointer does not name. -/
  | staged (a : Action υ β) {name : String} {slot : Slot β} (seals : sealsAs crates slot name = true)
      (unnamed : ∀ pointer ∈ root.current, pointer.publicationUuid ≠ name ∧
        pointer.expectedPreviousPublicationUuid ≠ some name) :
      Change crates root session a { root with slots := root.slots.insert name slot }
  /-- Files of a slot change, and its manifest does not. -/
  | live (a : Action υ β) {name : String} {slot before : Slot β} (lookup : root.slots.lookup name = some before)
      (manifest : slot.manifest = before.manifest) :
      Change crates root session a { root with slots := root.slots.insert name slot }
  /-- A slot goes that the pointer does not select; a prune retains the predecessor as well. -/
  | erased (a : Action υ β) {name : String} {operations' : AList fun _ : υ => OperationDir β}
      (fewer : ∀ key envelope, Root.Reads { root with operations := operations' } key envelope →
        root.Reads key envelope)
      (unselected : ∀ pointer ∈ root.current, pointer.publicationUuid ≠ name)
      (pruned : (∃ operationUuid revision s, a = .beginDiscard operationUuid revision ∧
        root.loadOperation crates operationUuid = .ok s ∧ s.plan.targetPublicationUuid = name) ∨
        ∀ pointer ∈ root.current, pointer.expectedPreviousPublicationUuid ≠ some name) :
      Change crates root session a { root with slots := root.slots.erase name, operations := operations' }
  /-- The pointer moves to the validated target of an operation that is `Activating`. -/
  | selected (lease : Lease) {key : υ} {s : PublicationOperationState} {p : CurrentPublicationPointer}
      (kept : Kept crates key s) (phase : s.phase = .activating)
      (journal : ∀ envelope, root.Reads key envelope → envelope.state = s)
      (others : ∀ key' envelope, root.Reads key' envelope → key' ≠ key →
        envelope.state.plan.targetPublicationUuid ≠ s.plan.targetPublicationUuid)
      (pointer : PointerKept crates root p) (target : p.publicationUuid = s.plan.targetPublicationUuid)
      (previous : p.expectedPreviousPublicationUuid = root.current.map (·.publicationUuid))
      (fresh : p.rolledBackFromPublicationUuid = none)
      (digest : s.validatedManifestBlake3 = some p.manifestBlake3) :
      Change crates root session (.selectCurrent lease) { root with current := some p }
  /-- The pointer is removed: nothing was selected before. -/
  | removed (formatVersion : ℕ) (lease : Lease) (expected : String) {current : CurrentPublicationPointer}
      (selected : root.current = some current) (once : current.rolledBackFromPublicationUuid = none)
      (previous : current.expectedPreviousPublicationUuid = none) :
      Change crates root session (.rollback formatVersion lease expected) { root with current := none }
  /-- The pointer moves back to the predecessor. -/
  | returned (formatVersion : ℕ) (lease : Lease) (expected : String)
      {current p : CurrentPublicationPointer} (selected : root.current = some current)
      (once : current.rolledBackFromPublicationUuid = none)
      (previous : current.expectedPreviousPublicationUuid = some p.publicationUuid)
      (pointer : PointerKept crates root p) (last : p.expectedPreviousPublicationUuid = none)
      (rolledBack : p.rolledBackFromPublicationUuid = some current.publicationUuid) :
      Change crates root session (.rollback formatVersion lease expected) { root with current := some p }

/-- **The invariant of the root is kept.** -/
lemma Change.inv {root root' : Root υ β} {session : Option (Session υ β)} {a : Action υ β}
    (h : Change crates root session a root')
    (hinv : root.Inv crates) : root'.Inv crates := by
  cases h with
  | same => exact hinv
  | moves _ hreads hmoves => exact hinv.moves hreads hmoves
  | appears _ hkept hplanned hunclaimed =>
    exact hinv.write hkept hunclaimed.others fun _ => hunclaimed.current
  | operations _ hfewer => exact hinv.operations hfewer
  | @restored _ key dir _ _ hjournal =>
    have hreads : ∀ key' envelope,
        Root.Reads { root with operations := root.operations.insert key dir } key' envelope →
        (key' = key ∧ dir.journal = some envelope) ∨ (key' ≠ key ∧ root.Reads key' envelope) :=
      fun key' envelope => Root.reads_insert.mp
    refine ⟨fun key' envelope h => ?_, fun p hp => ?_, hinv.manifests,
      fun key₁ envelope₁ key₂ envelope₂ h₁ h₂ hne => ?_, fun key' envelope h hstaging => ?_⟩
    · obtain ⟨rfl, hdir⟩ | ⟨-, hold⟩ := hreads key' envelope h
      · exact (hjournal envelope hdir).1
      · exact hinv.journals key' envelope hold
    · have hkept := hinv.pointer p hp
      exact ⟨hkept.valid, hkept.selected, hkept.previous, hkept.slot⟩
    · obtain ⟨heq₁, hdir₁⟩ | ⟨hne₁, hold₁⟩ := hreads key₁ envelope₁ h₁
      · obtain ⟨heq₂, -⟩ | ⟨-, hold₂⟩ := hreads key₂ envelope₂ h₂
        · exact absurd (heq₂.trans heq₁.symm) hne
        · subst heq₁
          exact (hjournal envelope₁ hdir₁).2.2 key₂ envelope₂ hold₂ hne
      · obtain ⟨-, hdir₂⟩ | ⟨-, hold₂⟩ := hreads key₂ envelope₂ h₂
        · exact ((hjournal envelope₂ hdir₂).2.2 key₁ envelope₁ hold₁ hne₁).symm
        · exact hinv.others key₁ envelope₁ key₂ envelope₂ hold₁ hold₂ hne
    · obtain ⟨rfl, hdir⟩ | ⟨-, hold⟩ := hreads key' envelope h
      · exact (hjournal envelope hdir).2.1 hstaging
      · exact hinv.staged key' envelope hold hstaging
  | staged _ hseals hunnamed =>
    exact hinv.insertSlot hseals fun p hp heq => absurd heq (hunnamed p hp).1
  | @live _ name slot before hlookup hmanifest =>
    refine hinv.insertSlot ?_ fun p hp heq => ⟨before, hlookup, hmanifest⟩
    rw [sealsAs, hmanifest]
    exact hinv.manifests name before hlookup
  | erased _ hfewer hunselected =>
    exact (hinv.operations hfewer).eraseSlot hunselected
  | @selected _ key s p hkept hphase hjournal hothers hpointer htarget hprevious =>
    refine hinv.setCurrent (fun q hq => ?_) fun q hq key' envelope hreads hstaging => ?_
    · obtain rfl := Option.some.inj hq
      exact hpointer
    · obtain rfl := Option.some.inj hq
      refine ⟨fun heq => ?_, fun heq => ?_⟩
      · by_cases hkey : key' = key
        · subst hkey
          rw [hjournal envelope hreads, hphase] at hstaging
          cases hstaging
        · exact hothers key' envelope hreads hkey (heq.symm.trans htarget)
      · rw [hprevious] at heq
        obtain ⟨current, hcurrent, heq⟩ := Option.map_eq_some_iff.mp heq
        exact (hinv.staged key' envelope hreads hstaging current hcurrent).1 heq
  | removed =>
    exact hinv.setCurrent (fun q hq => by cases hq) fun q hq => by cases hq
  | returned _ _ _ hselected _ hprevious hpointer hlast =>
    refine hinv.setCurrent (fun q hq => ?_) fun q hq key' envelope hreads hstaging => ?_
    · obtain rfl := Option.some.inj hq
      exact hpointer
    · obtain rfl := Option.some.inj hq
      have hstaged := hinv.staged key' envelope hreads hstaging _ hselected
      refine ⟨fun heq => hstaged.2 ?_, fun heq => ?_⟩
      · rw [hprevious, heq]
      · rw [hlast] at heq
        cases heq

/-! ## Steps -/

/-- A step changes the root in a way that is known, and what its session has found out is true. -/
structure Keeps (crates : Crates υ β) (sys : System υ β) (a : Action υ β) (sys' : System υ β) : Prop where
  change : Change crates sys.root sys.session a sys'.root
  session : ∀ session ∈ sys'.session, session.Inv crates sys'.root

namespace System

variable {sys sys' : System υ β} {a : Action υ β}

lemma keeps_some {root : Root υ β} {session : Session υ β} (h : Change crates sys.root sys.session a root)
    (hsession : session.Inv crates root) : Keeps crates sys a ⟨root, some session⟩ where
  change := h
  session x hx := by
    obtain rfl := Option.some.inj hx
    exact hsession

lemma keeps_settle {root : Root υ β} (h : Change crates sys.root sys.session a root) : Keeps crates sys a (settle root) :=
  keeps_some h trivial

lemma keeps_settled {outcome : Except String (Root υ β)}
    (h : ∀ root, outcome = .ok root → Change crates sys.root sys.session a root) :
    Keeps crates sys a (sys.settled outcome) := by
  cases outcome with
  | ok root => exact keeps_settle (h root rfl)
  | error e => exact keeps_settle (.same a)

lemma keeps_goOn {α : Type} {outcome : Except String α} {next : α → System υ β}
    (h : ∀ x, outcome = .ok x → Keeps crates sys a (next x)) : Keeps crates sys a (sys.goOn outcome next) := by
  cases outcome with
  | ok x => exact h x rfl
  | error e => exact keeps_settle (.same a)

/-- A call that loads, checks and persists a journal. -/
lemma callJournal_change {operationUuid : String} {update : Update} {root : Root υ β}
    (h : sys.callJournal crates operationUuid update = .ok root)
    (hupdate : ∀ key envelope s', Root.operationKey crates operationUuid = .ok key →
      sys.root.Reads key envelope → update envelope.state = .ok s' →
      Moves crates envelope.state s' ∧ (s'.phase = .activated → envelope.state.phase = .activated ∨
        (envelope.state.phase = .activating ∧
          sys.root.current.any (Root.selects crates envelope.state) = true))) :
    Change crates sys.root sys.session a root := by
  simp only [callJournal, bind_eq_ok, pure_eq_ok] at h
  obtain ⟨⟨root', s'⟩, hcall, rfl⟩ := h
  obtain ⟨key, envelope, hkey, hreads, hs', rfl⟩ := Root.updateOperation_eq_ok hcall
  obtain ⟨hmoves, hactivated⟩ := hupdate key envelope s' hkey hreads hs'
  exact .moves a hreads hmoves hactivated

/-- A permitted call does not make an operation `Activated`. -/
lemma call_change {c : JournalCall} (hpermitted : c.permitted = true) {now revision : ℕ}
    {operationUuid : String} {root : Root υ β}
    (h : sys.callJournal crates operationUuid (c.apply crates now revision) = .ok root) :
    Change crates sys.root sys.session a root := by
  refine callJournal_change h fun key envelope s' _ _ hs' => ?_
  obtain ⟨hmoves, hphase⟩ := JournalCall.moves hpermitted hs'
  refine ⟨hmoves, fun hactivated => .inl ?_⟩
  obtain hsame | hstages | hcancelled := hphase
  · rw [← hsame, hactivated]
  · rw [hactivated] at hstages
    cases hstages
  · rw [hactivated] at hcancelled
    cases hcancelled

/-- A new plan over what is selected. -/
lemma keeps_create {operation target : υ} {brain fingerprint producer : String} {formatVersion millis : ℕ}
    (hinv : sys.Inv crates) (hfresh : sys.root.Fresh crates operation target)
    {s : PublicationOperationState}
    (h : PublicationOperationState.new crates.toLibraries (rebuildPlan crates sys.root operation target brain
      fingerprint producer formatVersion millis) = .ok s) :
    Keeps crates sys a
      ⟨{ sys.root with operations := sys.root.operations.insert operation ⟨none, none⟩ },
        some (.creating operation s)⟩ := by
  simp only [PublicationOperationState.new, bind_eq_ok, pure_eq_ok] at h
  obtain ⟨⟨⟩, hvalid, rfl⟩ := h
  have hreads : ∀ key envelope, Root.Reads
      { sys.root with operations := sys.root.operations.insert operation ⟨none, none⟩ } key envelope →
      key ≠ operation ∧ sys.root.Reads key envelope := by
    intro key envelope hreads
    obtain ⟨-, hnone⟩ | hold := Root.reads_insert.mp hreads
    · cases hnone
    · exact hold
  have hkept : Kept crates operation
      { stateVersion := operationStateVersion
        revision := 0
        plan := rebuildPlan crates sys.root operation target brain fingerprint producer formatVersion millis
        phase := .planned
        cancelRequested := false
        progress := none
        completedArtifacts := ∅
        validatedManifestBlake3 := none
        failure := none
        updatedUnixMillis := millis } := by
    refine ⟨rfl, hvalid, rfl, ⟨target, rfl⟩, fun text htext => ?_, fun _ => rfl, fun hphase => ?_⟩
    · obtain ⟨p, hp, rfl⟩ := Option.map_eq_some_iff.mp htext
      exact (hinv.root.pointer p hp).selected
    · obtain hphase | hphase | hphase := hphase
      all_goals cases hphase
  refine ⟨.operations a fun key envelope h => (hreads key envelope h).2, fun session hsession => ?_⟩
  obtain rfl := Option.some.inj hsession
  refine ⟨hkept, rfl, ⟨hfresh.current, fun key envelope h _ => ?_⟩, fun envelope h =>
    (hreads operation envelope h).1 rfl⟩
  obtain ⟨dir, hdir, hjournal⟩ := (hreads key envelope h).2
  exact hfresh.targets ⟨key, dir⟩ (AList.mem_lookup_iff.mp hdir) envelope hjournal

lemma checkReady_eq_ok {operationUuid digest : String} {revision : ℕ}
    (h : sys.root.checkReady crates operationUuid revision = .ok digest) :
    ∃ key envelope, Root.operationKey crates operationUuid = .ok key ∧ sys.root.Reads key envelope ∧
      envelope.state.revision = revision ∧ envelope.state.phase = .validating := by
  simp only [Root.checkReady, bind_eq_ok, checkRevision_eq_ok, bailIf_eq_ok, not_not] at h
  obtain ⟨s, hload, -, hrevision, -, hphase, -⟩ := h
  obtain ⟨key, envelope, hkey, hreads, rfl⟩ := Root.reads_of_load hload
  exact ⟨key, envelope, hkey, hreads, hrevision, hphase⟩

lemma checkActivated_eq_ok {operationUuid : String} {revision : ℕ} {u : Unit}
    (h : sys.root.checkActivated crates operationUuid revision = .ok u) :
    ∃ key envelope, Root.operationKey crates operationUuid = .ok key ∧ sys.root.Reads key envelope ∧
      envelope.state.revision = revision ∧ envelope.state.phase = .activating ∧
      sys.root.current.any (Root.selects crates envelope.state) = true := by
  simp only [Root.checkActivated, bind_eq_ok, bailIf_eq_ok, not_or, not_not] at h
  obtain ⟨s, hload, -, ⟨hrevision, hphase⟩, current, hread, -, -, hselects⟩ := h
  obtain rfl := Root.readCurrent_eq_ok hread
  obtain ⟨key, envelope, hkey, hreads, rfl⟩ := Root.reads_of_load hload
  exact ⟨key, envelope, hkey, hreads, hrevision, hphase, by simpa using hselects⟩

/-- The first half of a selection. -/
lemma keeps_beginSelect {now revision : ℕ} {operationUuid : String} {key : υ} {root : Root υ β}
    {s : PublicationOperationState} (hinv : sys.Inv crates)
    (hkey : Root.operationKey crates operationUuid = .ok key)
    (h : sys.root.beginSelect crates operationUuid now revision = .ok (root, s)) :
    Keeps crates sys a ⟨root, some (.selecting key s)⟩ := by
  simp only [Root.beginSelect, Root.selectable, bind_eq_ok, bailIf_eq_ok] at h
  obtain ⟨s₀, hload, -, ⟨-, -, -, -, hphase⟩, h⟩ := h
  obtain ⟨key', envelope, hkey', hreads, rfl⟩ := Root.reads_of_load hload
  obtain rfl : key = key' := Except.ok.inj (hkey.symm.trans hkey')
  have hothers := fun key' envelope' hreads' hne =>
    hinv.root.others key envelope key' envelope' hreads hreads' hne
  have hkept := hinv.root.journals key envelope hreads
  by_cases hready : envelope.state.phase = .ready
  · rw [if_pos hready] at h
    obtain ⟨key', envelope', hkey', hreads', hcheckpoint, rfl⟩ := Root.updateOperation_eq_ok h
    obtain rfl : key = key' := Except.ok.inj (hkey.symm.trans hkey')
    obtain rfl := hreads.unique hreads'
    have hmoves : Moves crates envelope.state s :=
      Moves.of_sealed (by rw [hready]; rfl)
        (fun next hnext => by rw [← Except.ok.inj hnext]) hcheckpoint
    have hactivating : s.phase = .activating := by
      obtain ⟨-, -, next, hnext, -, rfl⟩ := checkpoint_eq_ok hcheckpoint
      rw [← Except.ok.inj hnext]
    refine ⟨.moves a hreads hmoves fun hactivated => ?_, fun session hsession => ?_⟩
    · rw [hactivating] at hactivated
      cases hactivated
    · obtain rfl := Option.some.inj hsession
      refine ⟨hkept.moves hmoves, hactivating, fun envelope' h' => ?_, fun key' envelope' h' hne => ?_⟩
      · obtain ⟨-, rfl⟩ | ⟨hne, -⟩ := Root.reads_persistState.mp h'
        · rfl
        · exact absurd rfl hne
      · obtain ⟨heq, -⟩ | ⟨-, hold⟩ := Root.reads_persistState.mp h'
        · exact absurd heq hne
        · rw [hmoves.target]
          exact hothers key' envelope' hold hne
  · rw [if_neg hready] at h
    obtain ⟨rfl, rfl⟩ := Prod.mk.inj (Except.ok.inj h)
    refine ⟨.same a, fun session hsession => ?_⟩
    obtain rfl := Option.some.inj hsession
    refine ⟨hkept, ?_, fun envelope' h' => by rw [hreads.unique h'], hothers⟩
    by_contra hactivating
    exact hphase ⟨hready, hactivating⟩

/-- What is discarded is not selected, and its slot is moved away. -/
lemma keeps_moveSlot {operationUuid : String} {revision : ℕ} {key : υ} {root : Root υ β}
    {s : PublicationOperationState} (hinv : sys.Inv crates)
    (hdiscardable : sys.root.discardable crates operationUuid revision = .ok s)
    (h : sys.root.moveSlot crates operationUuid s = .ok root) :
    Keeps crates sys (.beginDiscard operationUuid revision) ⟨root, some (.discarding key)⟩ := by
  refine ⟨?_, fun session hsession => ?_⟩
  · simp only [Root.discardable, bind_eq_ok, bailIf_eq_ok, pure_eq_ok] at hdiscardable
    obtain ⟨s', hload, -, -, -, -, -, -, current, hread, -, hselected, rfl⟩ := hdiscardable
    obtain rfl := Root.readCurrent_eq_ok hread
    obtain ⟨key', envelope, hkey', hreads, rfl⟩ := Root.reads_of_load hload
    obtain ⟨t, ht⟩ := (hinv.root.journals key' envelope hreads).target
    simp only [Root.moveSlot, bind_eq_ok, Root.slotName_eq_ok] at h
    obtain ⟨key'', hkey'', name, ⟨u, hu, -, rfl⟩, h⟩ := h
    rw [ht, crates.parse_text] at hu
    obtain rfl := Except.ok.inj hu
    cases hslot : sys.root.slots.lookup (crates.text t) with
    | none =>
      simp only [hslot, pure_eq_ok] at h
      subst h
      exact .same _
    | some slot =>
      cases hdir : sys.root.operations.lookup key'' with
      | none => simp [hslot, hdir] at h
      | some dir =>
        simp only [hslot, hdir, bind_eq_ok, bailIf_eq_ok, pure_eq_ok] at h
        obtain ⟨-, -, rfl⟩ := h
        refine .erased _ (fun k e hk => ?_) (fun p hp heq => hselected ?_) (.inl ⟨_, _, _, rfl, hload, ht⟩)
        · obtain ⟨rfl, hjournal⟩ | ⟨-, hold⟩ := Root.reads_insert.mp hk
          · exact ⟨dir, hdir, hjournal⟩
          · exact hold
        · rw [hp]
          simp [heq, ht, uuidEqual_text, Except.toOption]
  · obtain rfl := Option.some.inj hsession
    trivial

/-! ## Other processes -/

lemma keeps_cancel {now revision : ℕ} {operationUuid : String} {root : Root υ β} (hinv : sys.Inv crates)
    (hunlocked : sys.journalLocked crates operationUuid = false)
    (h : sys.callJournal crates operationUuid (JournalCall.requestCancel.apply crates now revision) =
      .ok root) : Keeps crates sys a ⟨root, sys.session⟩ := by
  refine ⟨call_change rfl h, fun session hsession => ?_⟩
  refine (hinv.session session hsession).foreign ?_
  simp only [callJournal, bind_eq_ok, pure_eq_ok] at h
  obtain ⟨⟨root', s'⟩, hcall, rfl⟩ := h
  obtain ⟨key, envelope, hkey, hreads, hs', rfl⟩ := Root.updateOperation_eq_ok hcall
  have hmoves := (JournalCall.moves rfl hs').1
  refine ⟨rfl, fun key' envelope' h' => ?_⟩
  obtain ⟨rfl, rfl⟩ | ⟨-, hold⟩ := Root.reads_persistState.mp h'
  · refine ⟨envelope, hreads, hmoves.target, .inr ⟨fun hlocked => ?_, ?_⟩⟩
    · have hsome : sys.session = some session := hsession
      rw [journalLocked, hkey, hsome] at hunlocked
      simp [hlocked] at hunlocked
    · have hrevision := hmoves.revision
      change _ < s'.revision
      omega
  · exact ⟨envelope', hold, rfl, .inl rfl⟩

lemma keeps_corrupt {key : υ} (hinv : sys.Inv crates) :
    Keeps crates sys a ⟨sys.corrupted key, sys.session⟩ := by
  cases hdir : sys.root.operations.lookup key with
  | none =>
    rw [corrupted, hdir]
    exact ⟨.same a, hinv.session⟩
  | some dir =>
    rw [corrupted, hdir]
    have hfewer : ∀ key' envelope, Root.Reads
        { sys.root with operations := sys.root.operations.insert key { dir with journal := none } }
        key' envelope → sys.root.Reads key' envelope := by
      intro key' envelope h
      obtain ⟨-, hnone⟩ | ⟨-, hold⟩ := Root.reads_insert.mp h
      · cases hnone
      · exact hold
    refine ⟨.operations a hfewer, fun session hsession => ?_⟩
    exact (hinv.session session hsession).foreign
      ⟨rfl, fun key' envelope h => ⟨envelope, hfewer key' envelope h, rfl, .inl rfl⟩⟩

lemma keeps_live {name : String} {slot before : Slot β} (hinv : sys.Inv crates)
    (hlookup : sys.root.slots.lookup name = some before) (hmanifest : slot.manifest = before.manifest) :
    Keeps crates sys a ⟨{ sys.root with slots := sys.root.slots.insert name slot }, sys.session⟩ :=
  ⟨.live a hlookup hmanifest, fun session hsession => (hinv.session session hsession).foreign
    ⟨rfl, fun _ envelope h => ⟨envelope, h, rfl, .inl rfl⟩⟩⟩

/-! ## The session -/

lemma mem_reclaimable {names : List String} {name : String}
    (h : sys.root.reclaimable crates = .ok names) (hname : name ∈ names) :
    ∃ retained, sys.root.retainedSlots crates = .ok retained ∧
      sys.root.retainedBecause crates retained name = none := by
  simp only [Root.reclaimable, bind_eq_ok, pure_eq_ok] at h
  obtain ⟨retained, hretained, rfl⟩ := h
  obtain ⟨disposition, hdisposition, rfl⟩ := List.mem_map.mp hname
  obtain ⟨hmem, hnone⟩ := List.mem_filter.mp hdisposition
  obtain ⟨e, -, rfl⟩ := List.mem_map.mp hmem
  exact ⟨retained, hretained, Option.isNone_iff_eq_none.mp hnone⟩

/-- What a prune removes, the pointer does not name. -/
lemma unnamed_of_reclaimable {names : List String} {name : String}
    (h : sys.root.reclaimable crates = .ok names) (hname : name ∈ names) :
    ∀ pointer ∈ sys.root.current, pointer.publicationUuid ≠ name ∧
      pointer.expectedPreviousPublicationUuid ≠ some name := by
  intro p hp
  obtain ⟨retained, hretained, hnone⟩ := mem_reclaimable h hname
  simp only [Root.retainedSlots, bind_eq_ok, pure_eq_ok] at hretained
  obtain ⟨current, hread, rfl⟩ := hretained
  obtain rfl := Root.readCurrent_eq_ok hread
  rw [Root.retainedBecause, Option.or_eq_none_iff, Option.mem_def.mp hp, List.lookup_eq_none_iff] at hnone
  refine ⟨fun heq => ?_, fun heq => ?_⟩
  · have hfirst := hnone.1 (p.publicationUuid, "selected by CURRENT")
      (List.mem_append_left _ List.mem_cons_self)
    simp [heq] at hfirst
  · have hsecond := hnone.1 (name, "retained predecessor for one-step rollback")
      (List.mem_append_left _ (List.mem_cons_of_mem _ (by simp [heq])))
    simp at hsecond

/-- **Every step of a session.** -/
lemma keeps_sessionStep {session : Session υ β} (hinv : sys.Inv crates) (hsession : sys.session = some session)
    (h : sys.sessionStep crates session a = some sys') : Keeps crates sys a sys' := by
  have hfound := hinv.session session hsession
  rw [sessionStep.eq_def] at h
  split at h
  -- a release
  · obtain rfl := Option.some.inj h
    exact ⟨.same _, fun session hsession => by cases hsession⟩
  -- calls and new operations
  · split_ifs at h with hpermitted
    obtain rfl := Option.some.inj h
    exact keeps_settled fun root hroot => call_change hpermitted hroot
  · split_ifs at h with hfresh
    obtain rfl := Option.some.inj h
    exact keeps_goOn fun s hs => keeps_create hinv hfresh hs
  · obtain rfl := Option.some.inj h
    obtain ⟨hkept, hplanned, hunclaimed, hnew⟩ := hfound
    exact keeps_settle (.appears _ hkept hplanned hunclaimed hnew)
  -- the slot is staged
  · split at h
    · cases h
    · rename_i s hload
      split_ifs at h with hstages
      obtain rfl := Option.some.inj h
      refine keeps_settled fun root hroot => ?_
      simp only [bind_eq_ok, Root.slotName_eq_ok, pure_eq_ok] at hroot
      obtain ⟨name, ⟨u, hu, -, rfl⟩, rfl⟩ := hroot
      obtain ⟨key, envelope, -, hreads, rfl⟩ := Root.reads_of_load hload
      obtain ⟨t, ht⟩ := (hinv.root.journals key envelope hreads).target
      obtain rfl : t = u := by
        rw [ht, crates.parse_text] at hu
        exact Except.ok.inj hu
      rw [ht] at hstages
      refine .staged _ hstages.2 fun p hp => ?_
      rw [← ht]
      exact hinv.root.staged key envelope hreads hstages.1 p hp
  -- the slot is validated, and the phase is `Ready`
  · obtain rfl := Option.some.inj h
    refine keeps_goOn fun digest hdigest => keeps_some (.same _) fun key envelope hkey hreads => ?_
    obtain ⟨key', envelope', hkey', hreads', hrevision, hphase⟩ := checkReady_eq_ok hdigest
    obtain rfl : key = key' := Except.ok.inj (hkey.symm.trans hkey')
    obtain rfl := hreads.unique hreads'
    exact ⟨hrevision.ge, fun _ => hphase⟩
  · obtain rfl := Option.some.inj h
    refine keeps_settled fun root hroot => callJournal_change hroot fun key envelope s' hkey hreads hs' => ?_
    obtain ⟨hrevision, -, next, hnext, -, rfl⟩ := checkpoint_eq_ok hs'
    refine ⟨markReady_moves ((hfound key envelope hkey hreads).2 hrevision) hs', fun hactivated => ?_⟩
    rw [← Except.ok.inj hnext] at hactivated
    cases hactivated
  -- the two halves of a selection
  · obtain rfl := Option.some.inj h
    refine keeps_goOn fun r hr => ?_
    simp only [bind_eq_ok, pure_eq_ok] at hr
    obtain ⟨key, hkey, ⟨root, s⟩, hselect, rfl⟩ := hr
    exact keeps_beginSelect hinv hkey hselect
  · obtain rfl := Option.some.inj h
    obtain ⟨hkept, hphase, hjournal, hothers⟩ := hfound
    refine keeps_settled fun root hroot => ?_
    obtain rfl | ⟨p, rfl, hpointer, htarget, hprevious, hfresh, hdigest, hcurrent⟩ :=
      Root.selectCurrent_eq_ok hinv.root hkept hroot
    · exact .same _
    · exact .selected _ hkept hphase hjournal hothers hpointer htarget (hprevious.trans hcurrent.symm) hfresh
        hdigest
  -- the pointer is checked, and the phase is `Activated`
  · obtain rfl := Option.some.inj h
    refine keeps_goOn fun u hu => keeps_some (.same _) fun key envelope hkey hreads => ?_
    obtain ⟨key', envelope', hkey', hreads', hrevision, hphase, hselects⟩ := checkActivated_eq_ok hu
    obtain rfl : key = key' := Except.ok.inj (hkey.symm.trans hkey')
    obtain rfl := hreads.unique hreads'
    exact ⟨hrevision.ge, fun _ => ⟨hphase, hselects⟩⟩
  · obtain rfl := Option.some.inj h
    refine keeps_settled fun root hroot => callJournal_change hroot fun key envelope s' hkey hreads hs' => ?_
    have hrevision := (checkpoint_eq_ok hs').1
    obtain ⟨hphase, hselects⟩ := (hfound key envelope hkey hreads).2 hrevision
    refine ⟨Moves.of_sealed (by rw [hphase]; rfl) (fun next hnext => ?_) hs', fun _ => .inr ⟨hphase, hselects⟩⟩
    simp only [advancePhase, bind_eq_ok, bailIf_eq_ok, pure_eq_ok] at hnext
    obtain ⟨-, -, -, -, -, -, rfl⟩ := hnext
    rfl
  -- a rollback
  · obtain rfl := Option.some.inj h
    refine keeps_settled fun root hroot => ?_
    obtain ⟨current, hcurrent, honce, ⟨hprevious, rfl⟩ | ⟨p, hprevious, rfl, hpointer, hlast, hrolled⟩⟩ :=
      Root.rollbackCurrent_eq_ok hinv.root hroot
    · exact .removed _ _ _ hcurrent honce hprevious
    · exact .returned _ _ _ hcurrent honce hprevious hpointer hlast hrolled
  -- the two halves of a discard
  · obtain rfl := Option.some.inj h
    refine keeps_goOn fun r hr => ?_
    simp only [bind_eq_ok, pure_eq_ok] at hr
    obtain ⟨key, -, s, hdiscardable, root, hmove, rfl⟩ := hr
    exact keeps_moveSlot hinv hdiscardable hmove
  · obtain rfl := Option.some.inj h
    exact keeps_settle (.operations _ fun k e hk => (Root.reads_removeOperation.mp hk).2)
  -- the two halves of a discard of an unreadable journal
  · split at h
    · obtain rfl := Option.some.inj h
      exact keeps_settle (.same _)
    · rename_i key _ dir hdir
      obtain rfl := Option.some.inj h
      refine keeps_some (.operations _ fun k e hk => (Root.reads_removeOperation.mp hk).2) ⟨?_, ?_⟩
      · exact fun envelope hreads => (Root.reads_removeOperation.mp hreads).1 rfl
      · intro envelope hjournal
        have hreads : sys.root.Reads _ envelope := ⟨dir, hdir, hjournal⟩
        refine ⟨hinv.root.journals _ envelope hreads, hinv.root.staged _ envelope hreads,
          fun key' envelope' h' hne => ?_⟩
        exact hinv.root.others _ envelope key' envelope' hreads (Root.reads_removeOperation.mp h').2 hne
  · split at h
    · obtain rfl := Option.some.inj h
      exact keeps_settle (.restored _ hsession hfound.1 hfound.2)
    · obtain rfl := Option.some.inj h
      exact keeps_settle (.same _)
  -- a prune
  · obtain rfl := Option.some.inj h
    exact keeps_goOn fun names hnames => keeps_some (.same _) fun name hname =>
      unnamed_of_reclaimable hnames hname
  · obtain rfl := Option.some.inj h
    exact keeps_settle (.same _)
  · rename_i name names
    obtain rfl := Option.some.inj h
    have hunnamed := hfound name List.mem_cons_self
    refine keeps_some (.erased _ (fun _ _ hk => hk) (fun p hp => (hunnamed p hp).1)
      (.inr fun p hp => (hunnamed p hp).2)) fun name' hname' => ?_
    exact hfound name' (List.mem_cons_of_mem _ hname')
  · cases h

variable [DecidableEq β]

/-- **Every step.** -/
theorem keeps_of_step (hinv : sys.Inv crates) (h : sys.step crates a = some sys') : Keeps crates sys a sys' := by
  have hother : sys.session.bind (fun session => sys.sessionStep crates session a) = some sys' →
      Keeps crates sys a sys' := by
    intro h
    obtain ⟨session, hsession, hstep⟩ := Option.bind_eq_some_iff.mp h
    exact keeps_sessionStep hinv hsession hstep
  cases a with
  | acquire =>
    simp only [step] at h
    split_ifs at h
    obtain rfl := Option.some.inj h
    exact keeps_settle (.same _)
  | crash =>
    obtain rfl := Option.some.inj h
    exact ⟨.same _, fun session hsession => by cases hsession⟩
  | cancel now operationUuid revision =>
    simp only [step] at h
    split_ifs at h with hlocked
    split at h
    · rename_i root hcall
      obtain rfl := Option.some.inj h
      exact keeps_cancel hinv (by simpa using hlocked) hcall
    · obtain rfl := Option.some.inj h
      exact ⟨.same _, hinv.session⟩
  | corrupt _ =>
    obtain rfl := Option.some.inj h
    exact keeps_corrupt hinv
  | live name slot =>
    simp only [step] at h
    split at h
    · cases h
    · rename_i before hlookup
      split_ifs at h with hmanifest
      obtain rfl := Option.some.inj h
      exact keeps_live hinv hlookup hmanifest
  | release | call _ _ _ _ | create _ _ _ _ _ _ _ | persistNew | stage _ _ | validateReady _ _
  | commitReady _ | beginSelect _ _ _ | selectCurrent _ | checkActivated _ _ | commitActivated _
  | rollback _ _ _ | beginDiscard _ _ | finishDiscard | quarantine _ | finishQuarantine | beginPrune
  | pruneSlot => exact hother h

/-- **The invariant.** -/
theorem Inv.step (hinv : sys.Inv crates) (h : sys.step crates a = some sys') : sys'.Inv crates := by
  have hkeeps := keeps_of_step hinv h
  exact ⟨hkeeps.change.inv hinv.root, hkeeps.session⟩

end System

end PublicationRoot
end NestWeaver
