import NestWeaver.Engine.Publication.Selection

/-!
# Operations over a run

A journal goes from one revision to the next as long as it can be read.  An operation is recorded as `Activated`
only after the pointer has selected its target, and the slot that a rollback needs goes only with a discard of
the operation that staged it.
-/

set_option linter.all false

namespace NestWeaver
namespace PublicationRoot

open Checked Transition

variable {υ β : Type} [DecidableEq υ] {crates : Crates υ β}

/-! ## Journals -/

/-- What is kept of a journal from one state to a later one. -/
structure Later (s s' : PublicationOperationState) : Prop where
  revision : s.revision ≤ s'.revision
  updated : s.updatedUnixMillis ≤ s'.updatedUnixMillis
  plan : s'.plan = { s.plan with inputFingerprint := s'.plan.inputFingerprint }
  sealed : s.phase.acceptsRescope = false → s'.phase.acceptsRescope = false ∧
    s'.validatedManifestBlake3 = s.validatedManifestBlake3
  terminal : s.phase.isTerminal = true →
    s' = { s with revision := s'.revision, updatedUnixMillis := s'.updatedUnixMillis }

lemma Later.refl (s : PublicationOperationState) : Later s s :=
  ⟨le_rfl, le_rfl, rfl, fun h => ⟨h, rfl⟩, fun _ => rfl⟩

lemma Later.trans {s t u : PublicationOperationState} (h : Later s t) (h' : Later t u) : Later s u where
  revision := h.revision.trans h'.revision
  updated := h.updated.trans h'.updated
  plan := by rw [h'.plan, h.plan]
  sealed hs := by
    obtain ⟨ht, hdigest⟩ := h.sealed hs
    obtain ⟨hu, hdigest'⟩ := h'.sealed ht
    exact ⟨hu, hdigest'.trans hdigest⟩
  terminal hs := by
    have ht := h.terminal hs
    have htphase : t.phase.isTerminal = true := by
      rw [ht]
      exact hs
    rw [h'.terminal htphase, ht]

lemma Moves.later {s s' : PublicationOperationState} (h : Moves crates s s') : Later s s' where
  revision := by
    have hrevision := h.revision
    omega
  updated := h.updated
  plan := h.plan
  sealed hs := by
    refine ⟨?_, h.sealed hs⟩
    by_contra hstaging
    rw [Bool.not_eq_false] at hstaging
    rw [h.staging hstaging] at hs
    cases hs
  terminal := h.terminal

/-- One step of a journal that can be read before and after it. -/
lemma Change.later {root root' : Root υ β} {session : Option (Session υ β)} {a : Action υ β}
    (hchange : Change crates root session a root') {key : υ} {envelope envelope' : ChecksummedOperationState}
    (h : root.Reads key envelope) (h' : root'.Reads key envelope') :
    envelope' = envelope ∨ Moves crates envelope.state envelope'.state := by
  have hsame : root.Reads key envelope' → envelope' = envelope := fun hold => hold.unique h
  cases hchange with
  | same | staged | live | selected | removed | returned => exact .inl (hsame h')
  | moves _ hreads hmoves =>
    obtain ⟨rfl, rfl⟩ | ⟨-, hold⟩ := Root.reads_persistState.mp h'
    · rw [h.unique hreads]
      exact .inr hmoves
    · exact .inl (hsame hold)
  | appears _ _ _ _ hnew =>
    obtain ⟨rfl, -⟩ | ⟨-, hold⟩ := Root.reads_persistState.mp h'
    · exact absurd h (hnew envelope)
    · exact .inl (hsame hold)
  | operations _ hfewer => exact .inl (hsame (hfewer key envelope' h'))
  | erased _ hfewer => exact .inl (hsame (hfewer key envelope' h'))
  | restored _ _ hgone =>
    obtain ⟨rfl, -⟩ | ⟨-, hold⟩ := Root.reads_insert.mp h'
    · exact absurd h (hgone envelope)
    · exact .inl (hsame hold)

section

variable [DecidableEq β]

/-- The journal can be read when an action is taken. -/
def Readable (key : υ) (sys : System υ β) (_ : Action υ β) : Prop := ∃ envelope, sys.root.Reads key envelope

/-- **A journal evolves as one writer would have written it**, whoever writes it and whatever fails: revisions
grow, the plan keeps its identity, a sealed slot is not staged again and keeps its digest, and an operation
that has ended stays as it ended. -/
theorem journal_evolves {front actions : List (Action υ β)} {sys sys' : System υ β} {key : υ}
    {envelope envelope' : ChecksummedOperationState} (h : run (System.step crates) empty front = some sys)
    (hrun : run (System.step crates) sys actions = some sys')
    (hreadable : Along (System.step crates) (Readable key) sys actions)
    (hreads : sys.root.Reads key envelope) (hreads' : sys'.root.Reads key envelope') :
    Later envelope.state envelope'.state := by
  have hinv := inv_of_run h
  clear h
  induction actions generalizing sys envelope with
  | nil =>
    obtain rfl := Option.some.inj hrun
    rw [hreads.unique hreads']
    exact Later.refl _
  | cons a actions ih =>
    rw [run, List.foldlM_cons] at hrun
    obtain ⟨mid, hstep, hrest⟩ := Option.bind_eq_some_iff.mp hrun
    have hlater : Along (System.step crates) (Readable key) mid actions := by
      intro front b back u heq hfront
      refine hreadable (a :: front) b back u (by rw [heq]; rfl) ?_
      rw [run, List.foldlM_cons, hstep]
      exact hfront
    obtain ⟨envelope₁, hreads₁⟩ : ∃ envelope₁, mid.root.Reads key envelope₁ := by
      cases actions with
      | nil =>
        obtain rfl := Option.some.inj hrest
        exact ⟨envelope', hreads'⟩
      | cons b rest => exact hlater [] b rest mid rfl rfl
    refine Later.trans ?_ (ih hrest hlater hreads₁ (hinv.step hstep))
    obtain hsame | hmoves := (System.keeps_of_step hinv hstep).change.later hreads hreads₁
    · rw [hsame]
      exact Later.refl _
    · exact hmoves.later

namespace Sample

lemma planned_eq : (result ((build 2 3).take 4)).map (seen 2) = some (none, some .planned) := by decide +kernel

lemma staged_eq : (result ((build 2 3).take 4 ++ [Action.call 0 (text 2) 0 (.advance .graph)])).map (seen 2) =
    some (none, some .graph) := by
  decide +kernel

end Sample

open Sample in
theorem journal_evolves_staged : ∃ sys sys' envelope envelope',
    result ((build 2 3).take 4) = some sys ∧
    result ((build 2 3).take 4 ++ [Action.call 0 (text 2) 0 (.advance .graph)]) = some sys' ∧
    sys.root.Reads 2 envelope ∧ envelope.state.phase = .planned ∧
    sys'.root.Reads 2 envelope' ∧ envelope'.state.phase = .graph ∧ Later envelope.state envelope'.state := by
  obtain ⟨sys, h, hseen⟩ := Option.map_eq_some_iff.mp planned_eq
  obtain ⟨sys', h', hseen'⟩ := Option.map_eq_some_iff.mp staged_eq
  obtain ⟨dir, hdir, hphase⟩ := Option.bind_eq_some_iff.mp (congrArg Prod.snd hseen)
  obtain ⟨dir', hdir', hphase'⟩ := Option.bind_eq_some_iff.mp (congrArg Prod.snd hseen')
  obtain ⟨envelope, hjournal, hphase⟩ := Option.map_eq_some_iff.mp hphase
  obtain ⟨envelope', hjournal', hphase'⟩ := Option.map_eq_some_iff.mp hphase'
  obtain ⟨s, hs, hstep⟩ := run_concat_eq_some.mp h'
  obtain rfl := Option.some.inj (h.symm.trans hs)
  have hrun : run (System.step Sample.crates) sys [.call 0 (text 2) 0 (.advance .graph)] = some sys' := by
    rw [run, List.foldlM_cons, hstep]
    rfl
  have hreadable : Along (System.step Sample.crates) (Readable 2) sys
      [.call 0 (text 2) 0 (.advance .graph)] :=
    Along.cons ⟨envelope, dir, hdir, hjournal⟩ fun _ _ => along_nil
  exact ⟨sys, sys', envelope, envelope', h, h', ⟨dir, hdir, hjournal⟩, hphase, ⟨dir', hdir', hjournal'⟩,
    hphase', journal_evolves h hrun hreadable ⟨dir, hdir, hjournal⟩ ⟨dir', hdir', hjournal'⟩⟩

/-! ## Activation -/

omit [DecidableEq β] in
lemma selected_of_selects {root : Root υ β} {s : PublicationOperationState} {key : υ} (hinv : root.Inv crates)
    (hs : Kept crates key s) (h : root.current.any (Root.selects crates s) = true) :
    root.selected = some (s.plan.targetPublicationUuid, s.validatedManifestBlake3.getD "") := by
  obtain ⟨p, hp, hselects⟩ := (Option.any_eq_true _ _).mp h
  obtain ⟨c, hc⟩ := (hinv.pointer p hp).selected
  obtain ⟨t, ht⟩ := hs.target
  simp only [Root.selects, hc, ht, uuidEqual_text, Except.toOption, Bool.decide_and, Bool.and_eq_true,
    decide_eq_true_eq, Option.some.injEq] at hselects
  rw [Root.selected, hp, ht, Option.map_some, hc, hselects.1, hselects.2]

/-- A journal that can be read, or that is being looked at outside of the directory of operations. -/
def Journaled (sys : System υ β) (key : υ) (envelope : ChecksummedOperationState) : Prop :=
  sys.root.Reads key envelope ∨
    ∃ dir, sys.session = some (.quarantined key dir) ∧ dir.journal = some envelope

omit [DecidableEq υ] [DecidableEq β] in
lemma System.settled_ne {sys : System υ β} {outcome : Except String (Root υ β)} {key : υ}
    {dir : OperationDir β} : (sys.settled outcome).session ≠ some (.quarantined key dir) := by
  cases outcome with
  | ok root => exact fun h => by cases h
  | error e => exact fun h => by cases h

omit [DecidableEq υ] [DecidableEq β] in
lemma System.goOn_ne {sys : System υ β} {α : Type} {outcome : Except String α} {next : α → System υ β}
    {key : υ} {dir : OperationDir β} (hnext : ∀ x, (next x).session ≠ some (.quarantined key dir)) :
    (sys.goOn outcome next).session ≠ some (.quarantined key dir) := by
  cases outcome with
  | ok x => exact hnext x
  | error e => exact fun h => by cases h

omit [DecidableEq β] in
/-- A directory that is moved away was there. -/
lemma quarantined_of_sessionStep {sys sys' : System υ β} {session : Session υ β} {a : Action υ β} {key : υ}
    {dir : OperationDir β} (h : sys.sessionStep crates session a = some sys')
    (hsession : sys'.session = some (.quarantined key dir)) :
    sys.root.operations.lookup key = some dir := by
  rw [System.sessionStep.eq_def] at h
  split at h
  case h_1 | h_4 | h_14 | h_18 | h_19 =>
    obtain rfl := Option.some.inj h
    cases hsession
  case h_2 =>
    split_ifs at h
    obtain rfl := Option.some.inj h
    exact absurd hsession System.settled_ne
  case h_3 =>
    split_ifs at h
    obtain rfl := Option.some.inj h
    exact absurd hsession (System.goOn_ne fun x hx => by cases hx)
  case h_5 =>
    split at h
    · cases h
    · split_ifs at h
      obtain rfl := Option.some.inj h
      exact absurd hsession System.settled_ne
  case h_7 | h_9 | h_11 | h_12 =>
    obtain rfl := Option.some.inj h
    exact absurd hsession System.settled_ne
  case h_6 | h_8 | h_10 | h_13 | h_17 =>
    obtain rfl := Option.some.inj h
    exact absurd hsession (System.goOn_ne fun x hx => by cases hx)
  case h_15 =>
    split at h
    · obtain rfl := Option.some.inj h
      cases hsession
    · rename_i dir' hdir
      obtain rfl := Option.some.inj h
      obtain ⟨rfl, rfl⟩ := Session.quarantined.inj (Option.some.inj hsession)
      exact hdir
  case h_16 =>
    split at h
    · obtain rfl := Option.some.inj h
      cases hsession
    · obtain rfl := Option.some.inj h
      cases hsession
  case h_20 => cases h

lemma quarantined_of_step {sys sys' : System υ β} {a : Action υ β} {key : υ} {dir : OperationDir β}
    (h : sys.step crates a = some sys') (hsession : sys'.session = some (.quarantined key dir)) :
    sys.session = some (.quarantined key dir) ∨ sys.root.operations.lookup key = some dir := by
  have hother : sys.session.bind (fun session => sys.sessionStep crates session a) = some sys' →
      sys.root.operations.lookup key = some dir := by
    intro h
    obtain ⟨session, -, hstep⟩ := Option.bind_eq_some_iff.mp h
    exact quarantined_of_sessionStep hstep hsession
  cases a with
  | acquire =>
    simp only [System.step] at h
    split_ifs at h
    obtain rfl := Option.some.inj h
    cases hsession
  | crash =>
    obtain rfl := Option.some.inj h
    cases hsession
  | cancel now operationUuid revision =>
    simp only [System.step] at h
    split_ifs at h
    split at h
    · obtain rfl := Option.some.inj h
      exact .inl hsession
    · obtain rfl := Option.some.inj h
      exact .inl hsession
  | corrupt _ =>
    obtain rfl := Option.some.inj h
    exact .inl hsession
  | live name slot =>
    simp only [System.step] at h
    split at h
    · cases h
    · split_ifs at h
      obtain rfl := Option.some.inj h
      exact .inl hsession
  | release | call _ _ _ _ | create _ _ _ _ _ _ _ | persistNew | stage _ _ | validateReady _ _
  | commitReady _ | beginSelect _ _ _ | selectCurrent _ | checkActivated _ _ | commitActivated _
  | rollback _ _ _ | beginDiscard _ _ | finishDiscard | quarantine _ | finishQuarantine | beginPrune
  | pruneSlot => exact .inr (hother h)

/-- At some state of the run the pointer selects this version. -/
def Selects (crates : Crates υ β) (actions : List (Action υ β)) (version : Version) : Prop :=
  ∃ front back mid, actions = front ++ back ∧ run (System.step crates) empty front = some mid ∧
    mid.root.selected = some version

lemma Selects.concat {actions : List (Action υ β)} {version : Version} (h : Selects crates actions version)
    (a : Action υ β) : Selects crates (actions ++ [a]) version := by
  obtain ⟨front, back, mid, rfl, hmid⟩ := h
  exact ⟨front, back ++ [a], mid, List.append_assoc _ _ _, hmid⟩

/-- **An operation is `Activated` only after the pointer has selected its target**, with the digest that was
validated: the pointer moves before the journal says so, wherever the rebuild stops and starts again. -/
theorem activated_was_selected {actions : List (Action υ β)} {sys : System υ β}
    (h : run (System.step crates) empty actions = some sys) {key : υ} {envelope : ChecksummedOperationState}
    (hreads : Journaled sys key envelope) (hphase : envelope.state.phase = .activated) :
    Selects crates actions
      (envelope.state.plan.targetPublicationUuid, envelope.state.validatedManifestBlake3.getD "") := by
  induction actions using List.reverseRecOn generalizing sys envelope with
  | nil =>
    obtain rfl := Option.some.inj h
    obtain hreads | ⟨dir, hdir, -⟩ := hreads
    · exact absurd hreads (not_reads_empty key envelope)
    · cases hdir
  | append_singleton front a ih =>
    obtain ⟨before, hfront, hstep⟩ := run_concat_eq_some.mp h
    have hinv := inv_of_run hfront
    have hold : Journaled before key envelope →
        Selects crates (front ++ [a]) (envelope.state.plan.targetPublicationUuid,
          envelope.state.validatedManifestBlake3.getD "") :=
      fun hj => (ih hfront hj hphase).concat a
    obtain hreads | ⟨dir, hdir, hjournal⟩ := hreads
    · have hchange := (System.keeps_of_step hinv hstep).change
      generalize hroot : sys.root = root' at hreads hchange
      cases hchange with
      | same | staged | live | selected | removed | returned => exact hold (.inl hreads)
      | @moves _ key' envelope₀ s' hbefore hmoves hactivated =>
        obtain ⟨rfl, rfl⟩ | ⟨-, hkeep⟩ := Root.reads_persistState.mp hreads
        · have hsealed : envelope₀.state.phase.acceptsRescope = false := by
            obtain hphase₀ | ⟨hphase₀, -⟩ := hactivated hphase
            · rw [hphase₀]
              rfl
            · rw [hphase₀]
              rfl
          rw [hmoves.target, hmoves.sealed hsealed]
          obtain hphase₀ | ⟨-, hselects⟩ := hactivated hphase
          · exact (ih hfront (.inl hbefore) hphase₀).concat a
          · have hkept := hinv.root.journals _ envelope₀ hbefore
            exact ⟨front, [a], before, rfl, hfront, selected_of_selects hinv.root hkept hselects⟩
        · exact hold (.inl hkeep)
      | appears _ _ hplanned =>
        obtain ⟨rfl, rfl⟩ | ⟨-, hkeep⟩ := Root.reads_persistState.mp hreads
        · rw [hplanned] at hphase
          cases hphase
        · exact hold (.inl hkeep)
      | operations _ hfewer => exact hold (.inl (hfewer key envelope hreads))
      | erased _ hfewer => exact hold (.inl (hfewer key envelope hreads))
      | restored _ hquarantined =>
        obtain ⟨rfl, hjournal⟩ | ⟨-, hkeep⟩ := Root.reads_insert.mp hreads
        · exact hold (.inr ⟨_, hquarantined, hjournal⟩)
        · exact hold (.inl hkeep)
    · obtain hbefore | hlookup := quarantined_of_step hstep hdir
      · exact hold (.inr ⟨dir, hbefore, hjournal⟩)
      · exact hold (.inl ⟨dir, hlookup, hjournal⟩)

open Sample in
theorem activated_was_selected_first : ∃ sys envelope, result (build 2 3 ++ activate 2) = some sys ∧
    sys.root.Reads 2 envelope ∧ envelope.state.phase = .activated ∧
    Selects Sample.crates (build 2 3 ++ activate 2)
      (envelope.state.plan.targetPublicationUuid, envelope.state.validatedManifestBlake3.getD "") := by
  obtain ⟨sys, h, hseen⟩ := Option.map_eq_some_iff.mp activated_eq
  obtain ⟨dir, hdir, hphase⟩ := Option.bind_eq_some_iff.mp (congrArg Prod.snd hseen)
  obtain ⟨envelope, hjournal, hphase⟩ := Option.map_eq_some_iff.mp hphase
  exact ⟨sys, envelope, h, ⟨dir, hdir, hjournal⟩, hphase,
    activated_was_selected h (.inl ⟨dir, hdir, hjournal⟩) hphase⟩

/-! ## The slot for a rollback -/

/-- No operation is discarded whose target is the predecessor of the pointer. -/
def KeepsPredecessor (crates : Crates υ β) (sys : System υ β) (a : Action υ β) : Prop :=
  ∀ operationUuid revision, a = .beginDiscard operationUuid revision →
    ∀ s, sys.root.loadOperation crates operationUuid = .ok s →
      ∀ p ∈ sys.root.current, p.expectedPreviousPublicationUuid ≠ some s.plan.targetPublicationUuid

/-- The slot of the predecessor is there, with a manifest. -/
def HasPredecessor (root : Root υ β) : Prop :=
  ∀ p ∈ root.current, ∀ previous, p.expectedPreviousPublicationUuid = some previous →
    ∃ slot bytes, root.slots.lookup previous = some slot ∧ slot.manifest = some bytes

lemma HasPredecessor.step {sys sys' : System υ β} {a : Action υ β} (hinv : sys.Inv crates)
    (h : HasPredecessor sys.root) (hkeeps : KeepsPredecessor crates sys a)
    (hstep : sys.step crates a = some sys') : HasPredecessor sys'.root := by
  have hchange := (System.keeps_of_step hinv hstep).change
  generalize sys'.root = root' at hchange
  cases hchange with
  | same | moves | appears | operations | restored => exact h
  | @staged _ name slot' _ hunnamed =>
    intro p hp previous hprevious
    obtain ⟨slot, bytes, hslot, hbytes⟩ := h p hp previous hprevious
    have hne : previous ≠ name := fun heq => (hunnamed p hp).2 (heq ▸ hprevious)
    exact ⟨slot, bytes, (AList.lookup_insert_ne hne).trans hslot, hbytes⟩
  | @live _ name slot' before hlookup hmanifest =>
    intro p hp previous hprevious
    obtain ⟨slot, bytes, hslot, hbytes⟩ := h p hp previous hprevious
    by_cases heq : previous = name
    · subst heq
      obtain rfl := Option.some.inj (hlookup.symm.trans hslot)
      exact ⟨slot', bytes, AList.lookup_insert _, hmanifest.trans hbytes⟩
    · exact ⟨slot, bytes, (AList.lookup_insert_ne heq).trans hslot, hbytes⟩
  | @erased _ name _ _ _ hpruned =>
    intro p hp previous hprevious
    obtain ⟨slot, bytes, hslot, hbytes⟩ := h p hp previous hprevious
    have hne : previous ≠ name := by
      rintro rfl
      obtain ⟨operationUuid, revision, s, ha, hload, htarget⟩ | hpruned := hpruned
      · exact hkeeps operationUuid revision ha s hload p hp (by rw [hprevious, htarget])
      · exact hpruned p hp hprevious
    exact ⟨slot, bytes, (AList.lookup_erase_ne hne).trans hslot, hbytes⟩
  | selected _ _ _ _ _ _ _ hprevious =>
    intro q hq previous hq'
    obtain rfl := Option.some.inj hq
    rw [hprevious] at hq'
    obtain ⟨p, hp, rfl⟩ := Option.map_eq_some_iff.mp hq'
    obtain ⟨slot, bytes, hslot, hbytes, -⟩ := (hinv.root.pointer p hp).slot
    exact ⟨slot, bytes, hslot, hbytes⟩
  | removed =>
    intro q hq
    cases hq
  | returned _ _ _ _ _ _ _ hlast =>
    intro q hq previous hq'
    obtain rfl := Option.some.inj hq
    rw [hlast] at hq'
    cases hq'

/-- **A rollback finds its slot**, as it was when it was selected, in every run that discards no operation
whose target is the predecessor of the pointer; no prune and no crash takes it away. -/
theorem predecessor_survives {actions : List (Action υ β)} {sys : System υ β}
    (h : run (System.step crates) empty actions = some sys)
    (hkeeps : Along (System.step crates) (KeepsPredecessor crates) empty actions) :
    ∀ p ∈ sys.root.current, ∀ previous, p.expectedPreviousPublicationUuid = some previous →
      ∃ slot bytes, sys.root.slots.lookup previous = some slot ∧ slot.manifest = some bytes ∧
        Selector.Event.cutover (previous, crates.blake3HexBytes bytes) ∈ trace crates empty actions := by
  have hboth : sys.Inv crates ∧ HasPredecessor sys.root := by
    refine hkeeps.invariant (P := fun u => u.Inv crates ∧ HasPredecessor u.root) h
      ⟨inv_empty, fun p hp => by cases hp⟩ ?_
    intro u u' a _ ⟨hinv, hhas⟩ hok hstep
    exact ⟨hinv.step hstep, hhas.step hinv hok hstep⟩
  intro p hp previous hprevious
  obtain ⟨slot, bytes, hslot, hbytes⟩ := hboth.2 p hp previous hprevious
  obtain ⟨sel, hsel, hrepresents⟩ := run_simulates inv_empty represents_empty h
  have hfresh : p.rolledBackFromPublicationUuid = none := by
    have hvalid := (hboth.1.root.pointer p hp).valid
    simp only [CurrentPublicationPointer.validate, bind_eq_ok, bailIf_eq_ok, hprevious] at hvalid
    obtain ⟨-, -, -, -, -, -, -, -, -, -, -, -, -, hrolled, -⟩ := hvalid
    simpa using hrolled
  obtain ⟨before, hbefore, hfirst⟩ := hrepresents.previous p hp hfresh
  rw [hprevious] at hfirst
  obtain ⟨version, rfl, rfl⟩ := Option.map_eq_some_iff.mp hfirst
  obtain ⟨bytes', hbytes', hdigest⟩ := hrepresents.retained version hbefore slot hslot
  obtain rfl := Option.some.inj (hbytes.symm.trans hbytes')
  refine ⟨slot, bytes, hslot, hbytes, ?_⟩
  rw [hdigest]
  exact (Selector.cutover_of_selected hsel).2 hbefore

namespace Sample

lemma republish_eq : (result republish).map (fun sys =>
    sys.root.current.bind (·.expectedPreviousPublicationUuid)) = some (some (text 3)) := by
  obtain ⟨built, sys, hbuilt, -, hsys, -, -, -, hnext⟩ := exists_selected
  have hsplit : republish = build 2 3 ++ [.selectCurrent lease] ++
      (.release :: (build 4 5 ++ [Action.selectCurrent lease])) := rfl
  rw [hsplit, result_append, result_append, hbuilt, Option.bind_some, hsys, Option.bind_some, hnext]

lemma keepsPredecessor_republish : Along (System.step Sample.crates) (KeepsPredecessor Sample.crates) empty
    republish := by
  rintro front a back u heq - operationUuid revision rfl
  have hmem : Action.beginDiscard operationUuid revision ∈ republish := by
    rw [heq]
    exact List.mem_append_right _ List.mem_cons_self
  simp [republish, build] at hmem

end Sample

open Sample in
theorem predecessor_survives_republish : ∃ sys slot bytes, result republish = some sys ∧
    sys.root.slots.lookup (text 3) = some slot ∧ slot.manifest = some bytes ∧
    Selector.Event.cutover (text 3, Sample.crates.blake3HexBytes bytes) ∈
      trace Sample.crates empty republish := by
  obtain ⟨sys, h, hprevious⟩ := Option.map_eq_some_iff.mp republish_eq
  obtain ⟨p, hp, hprevious⟩ := Option.bind_eq_some_iff.mp hprevious
  obtain ⟨slot, bytes, hslot, hbytes, hcutover⟩ :=
    predecessor_survives h keepsPredecessor_republish p hp (text 3) hprevious
  exact ⟨sys, slot, bytes, h, hslot, hbytes, hcutover⟩

end

end PublicationRoot
end NestWeaver
