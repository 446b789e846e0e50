import NestWeaver.Engine.Publication.Sessions
import NestWeaver.Framework.Selector

/-!
# The publication root is a selector with one step back

What is selected is the publication of the pointer, with the digest of its manifest.  Whatever processes do at
the root, in whatever order, and wherever they stop, the pointer goes through the states of a selector: a
selection is a cutover to the target of its operation, and a rollback is the rollback of the selector.
-/

set_option linter.all false

namespace NestWeaver
namespace PublicationRoot

open Checked Transition

variable {υ β : Type} [DecidableEq υ] {crates : Crates υ β}

/-! ## What is selected -/

abbrev Version := String × String

def Root.selected (root : Root υ β) : Option Version :=
  root.current.map fun p => (p.publicationUuid, p.manifestBlake3)

/-- What a step does to the pointer. -/
def event (root : Root υ β) (a : Action υ β) (root' : Root υ β) : Option (Selector.Event Version) :=
  if root'.current = root.current then none
  else
    match a with
    | .selectCurrent _ => root'.selected.map .cutover
    | .rollback _ _ _ => some .rollback
    | _ => none

/-- The pointer and the slot of its predecessor, as the selector sees them. -/
structure Represents (crates : Crates υ β) (root : Root υ β) (sel : Selector.State Version) : Prop where
  selected : sel.selected = root.selected
  nothing : root.current = none → sel.fallback = none
  once : ∀ p ∈ root.current, p.rolledBackFromPublicationUuid.isSome = true → sel.fallback = none
  previous : ∀ p ∈ root.current, p.rolledBackFromPublicationUuid = none →
    ∃ before, sel.fallback = some before ∧ before.map Prod.fst = p.expectedPreviousPublicationUuid
  retained : ∀ version, sel.fallback = some (some version) → ∀ slot,
    root.slots.lookup version.1 = some slot →
    ∃ bytes, slot.manifest = some bytes ∧ crates.blake3HexBytes bytes = version.2

omit [DecidableEq υ] in
lemma represents_empty : Represents crates (empty : System υ β).root Selector.initial where
  selected := rfl
  nothing _ := rfl
  once p hp := by cases hp
  previous p hp := by cases hp
  retained version h := by cases h

section

variable {root root' : Root υ β} {session : Option (Session υ β)} {a : Action υ β}
  {sel : Selector.State Version}

omit [DecidableEq υ] in
lemma event_of_current_eq (h : root'.current = root.current) : event root a root' = none := if_pos h

/-- A pointer and its predecessor differ. -/
lemma PointerKept.ne_previous {p : CurrentPublicationPointer} (h : PointerKept crates root p) :
    p.expectedPreviousPublicationUuid ≠ some p.publicationUuid := by
  intro heq
  obtain ⟨c, hc⟩ := h.selected
  have hvalid := h.valid
  simp only [CurrentPublicationPointer.validate, CurrentPublicationPointer.differs, heq, bind_eq_ok,
    bailIf_eq_ok, hc, parseUuid_eq_ok, crates.parse_text, Except.ok.injEq] at hvalid
  obtain ⟨-, -, -, -, -, -, -, -, -, ⟨other, ⟨rfl, -⟩, current, ⟨rfl, -⟩, hne⟩, -⟩ := hvalid
  exact hne rfl

omit [DecidableEq υ] in
/-- The slot of the predecessor, while the pointer stays. -/
lemma Represents.keep (h : Represents crates root sel) (hcurrent : root'.current = root.current)
    (hslots : ∀ version, sel.fallback = some (some version) → ∀ slot,
      root'.slots.lookup version.1 = some slot →
      ∃ before, root.slots.lookup version.1 = some before ∧ slot.manifest = before.manifest) :
    Represents crates root' sel where
  selected := by rw [h.selected, Root.selected, Root.selected, hcurrent]
  nothing hnone := h.nothing (hcurrent ▸ hnone)
  once p hp := h.once p (hcurrent ▸ hp)
  previous p hp := h.previous p (hcurrent ▸ hp)
  retained version hversion slot hslot := by
    obtain ⟨before, hbefore, hmanifest⟩ := hslots version hversion slot hslot
    rw [hmanifest]
    exact h.retained version hversion before hbefore

omit [DecidableEq υ] in
/-- What a rollback would select is the predecessor of the pointer. -/
lemma Represents.fallback_eq (h : Represents crates root sel) {version : Version}
    (hversion : sel.fallback = some (some version)) :
    ∃ p ∈ root.current, p.expectedPreviousPublicationUuid = some version.1 := by
  cases hcurrent : root.current with
  | none =>
    rw [h.nothing hcurrent] at hversion
    cases hversion
  | some p =>
    refine ⟨p, rfl, ?_⟩
    cases hrolled : p.rolledBackFromPublicationUuid with
    | some abandoned =>
      rw [h.once p hcurrent (by rw [hrolled]; rfl)] at hversion
      cases hversion
    | none =>
      obtain ⟨before, hbefore, hprevious⟩ := h.previous p hcurrent hrolled
      rw [hversion] at hbefore
      obtain rfl := Option.some.inj hbefore
      exact hprevious.symm

/-- **A change of the root is no event of the selector or one.** -/
lemma Change.simulates (hchange : Change crates root session a root') (hinv : root.Inv crates)
    (h : Represents crates root sel) :
    ∃ sel', run Selector.step sel (event root a root').toList = some sel' ∧ Represents crates root' sel' := by
  have hstays : root'.current = root.current → Represents crates root' sel →
      ∃ sel', run Selector.step sel (event root a root').toList = some sel' ∧
        Represents crates root' sel' := by
    intro hcurrent hrepresents
    exact ⟨sel, by rw [event_of_current_eq hcurrent]; rfl, hrepresents⟩
  cases hchange with
  | same => exact hstays rfl h
  | moves | appears | operations | restored =>
    exact hstays rfl (h.keep rfl fun _ _ slot hslot => ⟨slot, hslot, rfl⟩)
  | @staged _ name slot _ hunnamed =>
    refine hstays rfl (h.keep rfl fun version hversion slot' hslot' => ⟨slot', ?_, rfl⟩)
    obtain ⟨p, hp, hprevious⟩ := h.fallback_eq hversion
    have hne : version.1 ≠ name := fun heq => (hunnamed p hp).2 (heq ▸ hprevious)
    exact (AList.lookup_insert_ne hne).symm.trans hslot'
  | @live _ name slot before hlookup hmanifest =>
    refine hstays rfl (h.keep rfl fun version hversion slot' hslot' => ?_)
    by_cases heq : version.1 = name
    · rw [heq] at hslot' ⊢
      obtain rfl := Option.some.inj ((AList.lookup_insert _).symm.trans hslot')
      exact ⟨before, hlookup, hmanifest⟩
    · exact ⟨slot', (AList.lookup_insert_ne heq).symm.trans hslot', rfl⟩
  | @erased _ name =>
    refine hstays rfl (h.keep rfl fun version hversion slot' hslot' => ⟨slot', ?_, rfl⟩)
    by_cases heq : version.1 = name
    · rw [heq] at hslot'
      simp [AList.lookup_erase] at hslot'
    · exact (AList.lookup_erase_ne heq).symm.trans hslot'
  | @selected lease key s p _ _ _ _ hpointer _ hprevious hfresh _ =>
    refine ⟨⟨some (p.publicationUuid, p.manifestBlake3), some sel.selected⟩, ?_, rfl, ?_, ?_, ?_, ?_⟩
    · have hne : some p ≠ root.current := by
        intro heq
        refine hpointer.ne_previous ?_
        rw [hprevious, ← heq]
        rfl
      rw [event, if_neg hne]
      rfl
    · intro hnone
      cases hnone
    · intro q hq hrolled
      obtain rfl := Option.some.inj hq
      rw [hfresh] at hrolled
      cases hrolled
    · intro q hq _
      obtain rfl := Option.some.inj hq
      refine ⟨sel.selected, rfl, ?_⟩
      rw [h.selected, hprevious, Root.selected, Option.map_map]
      rfl
    · intro version hversion slot hslot
      have hselected : root.selected = some version := by
        rw [← h.selected]
        exact Option.some.inj hversion
      obtain ⟨q, hq, rfl⟩ := Option.map_eq_some_iff.mp hselected
      obtain ⟨slot', bytes, hslot', hbytes⟩ := (hinv.pointer q hq).slot
      obtain rfl := Option.some.inj (hslot'.symm.trans hslot)
      exact ⟨bytes, hbytes⟩
  | @removed _ _ _ current hcurrent honce hprevious =>
    obtain ⟨before, hbefore, hnone⟩ := h.previous current hcurrent honce
    rw [hprevious, Option.map_eq_none_iff] at hnone
    subst hnone
    refine ⟨⟨none, none⟩, ?_, rfl, fun _ => rfl, fun _ _ _ => rfl, ?_, ?_⟩
    · have hne : none ≠ root.current := by simp [hcurrent]
      rw [event, if_neg hne]
      change (Selector.step sel .rollback).bind some = _
      rw [Selector.step, hbefore]
      rfl
    · intro q hq
      cases hq
    · intro version hversion
      cases hversion
  | @returned _ _ _ current p hcurrent honce hprevious hpointer hlast hrolled =>
    obtain ⟨before, hbefore, hfirst⟩ := h.previous current hcurrent honce
    rw [hprevious] at hfirst
    obtain ⟨version, rfl, hversion⟩ := Option.map_eq_some_iff.mp hfirst
    obtain ⟨slot, bytes, hslot, hbytes, hdigest⟩ := hpointer.slot
    obtain ⟨bytes', hbytes', hretained⟩ := h.retained version hbefore slot (hversion ▸ hslot)
    obtain rfl := Option.some.inj (hbytes.symm.trans hbytes')
    have hreturned : version = (p.publicationUuid, p.manifestBlake3) :=
      Prod.ext hversion (hretained.symm.trans hdigest)
    refine ⟨⟨some version, none⟩, ?_, by rw [hreturned]; rfl, fun _ => rfl, fun _ _ _ => rfl, ?_,
      fun version hversion => by cases hversion⟩
    · have hne : some p ≠ root.current := by
        intro heq
        rw [hcurrent, Option.some.injEq] at heq
        rw [heq, honce] at hrolled
        cases hrolled
      rw [event, if_neg hne]
      change (Selector.step sel .rollback).bind some = _
      rw [Selector.step, hbefore]
      rfl
    · intro q hq hnone
      obtain rfl := Option.some.inj hq
      rw [hrolled] at hnone
      cases hnone

/-! ## Runs -/

variable [DecidableEq β]

/-- The events of a run. -/
def trace (crates : Crates υ β) (sys : System υ β) : List (Action υ β) → List (Selector.Event Version)
  | [] => []
  | a :: actions =>
    match sys.step crates a with
    | none => []
    | some sys' => (event sys.root a sys'.root).toList ++ trace crates sys' actions

lemma run_simulates {sys sys' : System υ β} {actions : List (Action υ β)} (hinv : sys.Inv crates)
    (hrepresents : Represents crates sys.root sel)
    (h : run (System.step crates) sys actions = some sys') :
    ∃ sel', run Selector.step sel (trace crates sys actions) = some sel' ∧
      Represents crates sys'.root sel' := by
  induction actions generalizing sys sel with
  | nil =>
    obtain rfl := Option.some.inj h
    exact ⟨sel, rfl, hrepresents⟩
  | cons a actions ih =>
    rw [run, List.foldlM_cons] at h
    obtain ⟨mid, hstep, hrest⟩ := Option.bind_eq_some_iff.mp h
    obtain ⟨sel₁, hfirst, hmid⟩ :=
      (System.keeps_of_step hinv hstep).change.simulates hinv.root hrepresents
    obtain ⟨sel₂, hlater, hlast⟩ := ih (hinv.step hstep) hmid hrest
    refine ⟨sel₂, ?_, hlast⟩
    rw [trace, hstep]
    change run Selector.step sel ((event sys.root a mid.root).toList ++ trace crates mid actions) = _
    rw [run_append, hfirst]
    exact hlater

omit [DecidableEq β] in
lemma not_reads_empty (key : υ) (envelope : ChecksummedOperationState) :
    ¬(empty : System υ β).root.Reads key envelope := by
  rintro ⟨dir, hdir, -⟩
  cases hdir

omit [DecidableEq β] in
lemma inv_empty : (empty : System υ β).Inv crates := by
  refine ⟨⟨fun key envelope h => absurd h (not_reads_empty key envelope), fun p hp => ?_,
    fun name slot h => ?_, fun key envelope _ _ h => absurd h (not_reads_empty key envelope),
    fun key envelope h => absurd h (not_reads_empty key envelope)⟩, fun session h => ?_⟩
  · cases hp
  · cases h
  · cases h

lemma inv_of_run {sys : System υ β} {actions : List (Action υ β)}
    (h : run (System.step crates) empty actions = some sys) : sys.Inv crates :=
  (steps_of_run h).invariant inv_empty fun _ _ _ hinv hstep => hinv.step hstep

namespace Sample

lemma result_append (front back : List (Action (Fin 6) Bytes)) :
    result (front ++ back) = (result front).bind fun sys => run (System.step Sample.crates) sys back :=
  run_append _ front back

/-- A rebuild up to its selection, and from there its activation, a rollback, and another rebuild. -/
lemma selected_eq : (result (build 2 3)).any (fun built => built.root.current.isNone &&
    (run (System.step Sample.crates) built [.selectCurrent lease]).any fun sys =>
      decide (sys.root.current.map (·.publicationUuid) = some (text 3)) &&
      decide ((run (System.step Sample.crates) sys (activate 2).tail).map (seen 2) =
        some (some (text 3), some .activated)) &&
      (run (System.step Sample.crates) sys [.crash, .acquire, .rollback 1 lease (text 3)]).any
        (fun back => back.root.current.isNone) &&
      decide ((run (System.step Sample.crates) sys
          (.release :: (build 4 5 ++ [Action.selectCurrent lease]))).map
        (fun next => next.root.current.bind (·.expectedPreviousPublicationUuid)) =
          some (some (text 3)))) = true := by
  decide +kernel

lemma exists_selected : ∃ built sys, result (build 2 3) = some built ∧ built.root.current = none ∧
    run (System.step Sample.crates) built [.selectCurrent lease] = some sys ∧
    sys.root.current.map (·.publicationUuid) = some (text 3) ∧
    (run (System.step Sample.crates) sys (activate 2).tail).map (seen 2) =
      some (some (text 3), some .activated) ∧
    (∃ back, run (System.step Sample.crates) sys [.crash, .acquire, .rollback 1 lease (text 3)] = some back ∧
      back.root.current = none) ∧
    (run (System.step Sample.crates) sys
        (.release :: (build 4 5 ++ [Action.selectCurrent lease]))).map
      (fun next => next.root.current.bind (·.expectedPreviousPublicationUuid)) = some (some (text 3)) := by
  have hviews := selected_eq
  simp only [Option.any_eq_true, Bool.and_eq_true, decide_eq_true_eq, Option.isNone_iff_eq_none] at hviews
  obtain ⟨built, hbuilt, hnone, sys, hsys, ⟨⟨hname, hactivated⟩, hback⟩, hnext⟩ := hviews
  exact ⟨built, sys, hbuilt, hnone, hsys, hname, hactivated, hback, hnext⟩

lemma activated_eq : (result (build 2 3 ++ activate 2)).map (seen 2) =
    some (some (text 3), some .activated) := by
  obtain ⟨built, sys, hbuilt, -, hsys, -, hactivated, -⟩ := exists_selected
  have hsplit : activate 2 = [.selectCurrent lease] ++ (activate 2).tail := rfl
  rw [hsplit, ← List.append_assoc, result_append, result_append, hbuilt, Option.bind_some, hsys,
    Option.bind_some, hactivated]

end Sample

/-- **The pointer is never left dangling.**  In every state that is reached it can be read, and the slot that
it selects is there, with the manifest that it was selected with; and no session is about to remove it. -/
theorem pointer_selects_sealed_slot {sys : System υ β} {actions : List (Action υ β)}
    (h : run (System.step crates) empty actions = some sys) :
    ∀ p ∈ sys.root.current, p.validate crates = .ok () ∧
      (∃ slot bytes, sys.root.slot crates p.publicationUuid = .ok slot ∧ slot.manifest = some bytes ∧
        crates.blake3HexBytes bytes = p.manifestBlake3) ∧
      ∀ names, sys.session = some (.pruning names) → p.publicationUuid ∉ names := by
  intro p hp
  have hinv := inv_of_run h
  have hkept := hinv.root.pointer p hp
  refine ⟨hkept.valid, hkept.slot_eq, fun names hnames hmem => ?_⟩
  exact ((hinv.session _ hnames) p.publicationUuid hmem p hp).1 rfl

theorem pointer_selects_sealed_slot_activated :
    ∃ sys p, Sample.result (Sample.build 2 3 ++ Sample.activate 2) = some sys ∧ p ∈ sys.root.current ∧
      p.publicationUuid = Sample.text 3 ∧ p.validate Sample.crates = .ok () := by
  obtain ⟨sys, hsys, hseen⟩ := Option.map_eq_some_iff.mp Sample.activated_eq
  obtain ⟨p, hp, hname⟩ := Option.map_eq_some_iff.mp (congrArg Prod.fst hseen)
  exact ⟨sys, p, hsys, hp, hname, (pointer_selects_sealed_slot hsys p hp).1⟩

/-! ## One step back -/

omit [DecidableEq β] in
/-- The pointer moves by selections and rollbacks only. -/
lemma Change.current_eq_of_event (hchange : Change crates root session a root')
    (h : event root a root' = none) : root'.current = root.current := by
  by_contra hne
  cases hchange with
  | same | moves | appears | operations | restored | staged | live | erased => exact hne rfl
  | selected => simp [event, hne, Root.selected] at h
  | removed | returned => simp [event, hne] at h

lemma current_eq_of_trace {sys sys' : System υ β} {actions : List (Action υ β)} (hinv : sys.Inv crates)
    (h : run (System.step crates) sys actions = some sys') (hstill : trace crates sys actions = []) :
    sys'.root.current = sys.root.current := by
  induction actions generalizing sys with
  | nil =>
    obtain rfl := Option.some.inj h
    rfl
  | cons a actions ih =>
    rw [run, List.foldlM_cons] at h
    obtain ⟨mid, hstep, hrest⟩ := Option.bind_eq_some_iff.mp h
    rw [trace, hstep] at hstill
    obtain ⟨hevent, hlater⟩ := List.append_eq_nil_iff.mp hstill
    rw [ih (hinv.step hstep) hrest hlater]
    refine (System.keeps_of_step hinv hstep).change.current_eq_of_event ?_
    simpa using hevent

/-- **A rollback selects what was selected before the cutover**, with the digest that it had then, whatever
was done in between; and until the next cutover there is no other. -/
theorem rollback_restores {front mid : List (Action υ β)} {s₁ s₂ s₃ s₄ : System υ β} {lease lease' : Lease}
    {formatVersion : ℕ} {expected : String} (h₁ : run (System.step crates) empty front = some s₁)
    (h₂ : s₁.step crates (.selectCurrent lease) = some s₂) (hcutover : s₂.root.current ≠ s₁.root.current)
    (h₃ : run (System.step crates) s₂ mid = some s₃) (hstill : trace crates s₂ mid = [])
    (h₄ : s₃.step crates (.rollback formatVersion lease' expected) = some s₄)
    (hback : s₄.root.current ≠ s₃.root.current) :
    s₄.root.selected = s₁.root.selected ∧
      ∀ later s₅, run (System.step crates) s₄ later = some s₅ →
        (∀ version, Selector.Event.cutover version ∉ trace crates s₄ later) →
        s₅.root.current = s₄.root.current := by
  have hinv₁ := inv_of_run h₁
  have hinv₂ := hinv₁.step h₂
  have hinv₃ : s₃.Inv crates := (steps_of_run h₃).invariant hinv₂ fun _ _ _ hinv hstep => hinv.step hstep
  obtain ⟨sel₁, -, hrep₁⟩ := run_simulates inv_empty represents_empty h₁
  obtain ⟨sel₂, hsel₂, hrep₂⟩ :=
    (System.keeps_of_step hinv₁ h₂).change.simulates hinv₁.root hrep₁
  have hfallback : sel₂.fallback = some sel₁.selected := by
    have hchange := (System.keeps_of_step hinv₁ h₂).change
    rw [event, if_neg hcutover] at hsel₂
    cases hnew : s₂.root.selected with
    | none =>
      have hnone : event s₁.root (.selectCurrent lease) s₂.root = none := by
        rw [event, if_neg hcutover, hnew]
        rfl
      exact absurd (hchange.current_eq_of_event hnone) hcutover
    | some version =>
      rw [hnew] at hsel₂
      obtain rfl := Option.some.inj hsel₂
      rfl
  obtain ⟨sel₃, hsel₃, hrep₃⟩ := run_simulates hinv₂ hrep₂ h₃
  rw [hstill] at hsel₃
  obtain rfl := Option.some.inj hsel₃
  obtain ⟨sel₄, hsel₄, hrep₄⟩ :=
    (System.keeps_of_step hinv₃ h₄).change.simulates hinv₃.root hrep₃
  rw [event, if_neg hback] at hsel₄
  change (Selector.step sel₂ .rollback).bind some = _ at hsel₄
  rw [Selector.step, hfallback] at hsel₄
  obtain rfl := Option.some.inj hsel₄
  refine ⟨hrep₄.selected.symm.trans hrep₁.selected, fun later s₅ h₅ hno => ?_⟩
  have hinv₄ := hinv₃.step h₄
  obtain ⟨sel₅, hsel₅, -⟩ := run_simulates hinv₄ hrep₄ h₅
  exact current_eq_of_trace hinv₄ h₅ (Selector.eq_nil_of_no_cutover rfl hsel₅ hno)

open Sample in
theorem rollback_restores_first : ∃ s₁ s₄, result (build 2 3) = some s₁ ∧
    result (build 2 3 ++ [Action.selectCurrent lease] ++ [Action.crash, .acquire, .rollback 1 lease (text 3)]) =
      some s₄ ∧
    s₄.root.selected = s₁.root.selected := by
  obtain ⟨s₁, s₂, h₁, hnone₁, h₂, hname₂, -, ⟨s₄, h₄, hnone₄⟩, -⟩ := exists_selected
  have hselect : s₁.step Sample.crates (.selectCurrent lease) = some s₂ := by
    simpa [run] using h₂
  have hback : (System.settle s₂.root).step Sample.crates (.rollback 1 lease (text 3)) = some s₄ := h₄
  have hcrash : run (System.step Sample.crates) s₂ [.crash, .acquire] = some (System.settle s₂.root) := rfl
  have hstill : trace Sample.crates s₂ [.crash, .acquire] = [] := by
    simp [trace, System.step, event, System.settle]
  refine ⟨s₁, s₄, h₁, ?_, (rollback_restores h₁ hselect ?_ hcrash hstill hback ?_).1⟩
  · rw [result_append, result_append, h₁, Option.bind_some, h₂, Option.bind_some, h₄]
  · intro heq
    rw [heq, hnone₁] at hname₂
    cases hname₂
  · intro heq
    have hnone₂ : s₂.root.current = none := heq.symm.trans hnone₄
    rw [hnone₂] at hname₂
    cases hname₂

end

end PublicationRoot
end NestWeaver
