import Mathlib.Data.Finset.Basic
import Mathlib.Data.List.AList
import NestWeaver.Framework.Agents

/-!
# Single flights

`coalesce_in_flight` of `crates/nestweaver-mcp/src/tools.rs`: of the calls that miss the response cache with the
same key, the first one computes and the others wait for its result.  An agent is a thread; what it does with
one mutex locked is one act.

The leader of a slot is the thread that has created it.  It owes the slot a result and its followers a
notification until it has given both (`Board.Done`).
-/

set_option linter.all false

namespace NestWeaver
namespace SingleFlight

open Transition

/-! ## Flights -/

structure SharedFlightError (F : Type) where
  message : String
  repoFilter : Option F
  deriving DecidableEq, Repr

abbrev Outcome (V F : Type) := Except (SharedFlightError F) V

/-- What followers get when the computation has panicked. -/
def dropped {V F : Type} : Outcome V F :=
  .error ⟨"in-flight leader dropped before producing a result", none⟩

structure InFlightSlot (ι κ ρ : Type) where
  result : Option ρ
  /-- For which key it was created, and by whom: for the proofs, no operation reads them. -/
  key : κ
  leader : ι

structure Board (ι κ ρ : Type) where
  /-- `IN_FLIGHT`. -/
  flights : AList fun _ : κ => ℕ
  /-- The slots that were allocated. -/
  slots : List (InFlightSlot ι κ ρ)
  /-- Who waits for `ready` of a slot, and has not been woken. -/
  asleep : Finset (ι × ℕ)

inductive Phase (κ ρ : Type)
  | idle
  /-- Before `compute` has ended. -/
  | leading (key : κ) (slot : ℕ)
  /-- `drop` of the leader: before it locks the flights, before it locks the result, before it notifies. -/
  | dropping (key : κ) (slot : ℕ)
  | unregistered (key : κ) (slot : ℕ)
  | settled (key : κ) (slot : ℕ)
  | following (key : κ) (slot : ℕ) (cancellable : Bool)
  /-- A follower has returned a result, or was cancelled. -/
  | returned (key : κ) (result : Option ρ)
  deriving DecidableEq

inductive Act (κ ρ : Type)
  | call (key : κ) (cancellable : Bool)
  /-- The computation ends, and its outcome is stored. -/
  | finish (result : ρ)
  | panic
  | unregister
  | settle
  | notify
  /-- A follower that is awake looks at the cancellation flag, and then at the result. -/
  | poll (cancelled : Bool)
  | wake
  deriving DecidableEq

variable {ι κ V F : Type} [DecidableEq ι] [DecidableEq κ]

namespace Board

variable {ρ : Type}

omit [DecidableEq ι] [DecidableEq κ] in
def empty : Board ι κ ρ := ⟨∅, [], ∅⟩

omit [DecidableEq ι] [DecidableEq κ] in
def setResult (s : Board ι κ ρ) (slot : ℕ) (result : ρ) : Board ι κ ρ :=
  { s with slots := s.slots.modify slot fun x => { x with result := some result } }

omit [DecidableEq ι] [DecidableEq κ] in
def resultOf (s : Board ι κ ρ) (slot : ℕ) : Option ρ := s.slots[slot]?.bind (·.result)

/-- The first part of `coalesce_in_flight`. -/
def register (s : Board ι κ ρ) (i : ι) (key : κ) (cancellable : Bool) : Board ι κ ρ × Phase κ ρ :=
  match s.flights.lookup key with
  | some slot => (s, .following key slot cancellable)
  | none =>
    ({ s with
        flights := s.flights.insert key s.slots.length
        slots := s.slots ++ [⟨none, key, i⟩] },
      .leading key s.slots.length)

/-- Only if the entry still points at this slot. -/
def unregister (s : Board ι κ ρ) (key : κ) (slot : ℕ) : Board ι κ ρ :=
  if s.flights.lookup key = some slot then { s with flights := s.flights.erase key } else s

omit [DecidableEq κ] in
def notifyAll (s : Board ι κ ρ) (slot : ℕ) : Board ι κ ρ :=
  { s with asleep := s.asleep.filter (·.2 ≠ slot) }

def act (i : ι) (a : Act κ (Outcome V F)) (s : Board ι κ (Outcome V F)) (p : Phase κ (Outcome V F)) :
    Option (Board ι κ (Outcome V F) × Phase κ (Outcome V F)) :=
  match a, p with
  | .call key cancellable, .idle | .call key cancellable, .returned _ _ =>
    some (s.register i key cancellable)
  | .finish result, .leading key slot => some (s.setResult slot result, .dropping key slot)
  | .panic, .leading key slot => some (s, .dropping key slot)
  | .unregister, .dropping key slot => some (s.unregister key slot, .unregistered key slot)
  | .settle, .unregistered key slot =>
    some (if (s.resultOf slot).isNone then s.setResult slot dropped else s, .settled key slot)
  | .notify, .settled _ slot => some (s.notifyAll slot, .idle)
  | .poll cancelled, .following key slot cancellable =>
    if (i, slot) ∈ s.asleep then none
    else if cancellable && cancelled then some (s, .returned key none)
    else
      match s.resultOf slot with
      | some result => some (s, .returned key (some result))
      | none => some ({ s with asleep := insert (i, slot) s.asleep }, .following key slot cancellable)
  | .wake, .following key slot cancellable =>
    some ({ s with asleep := s.asleep.erase (i, slot) }, .following key slot cancellable)
  | _, _ => none

end Board

/-! ## What an act keeps -/

/-- The slot that the thread leads, until it has notified. -/
def Phase.leads {ρ : Type} : Phase κ ρ → Option (κ × ℕ)
  | .leading key slot | .dropping key slot | .unregistered key slot | .settled key slot => some (key, slot)
  | .idle | .following _ _ _ | .returned _ _ => none

namespace Board

variable {ρ : Type}

/-- The flights are registered under the keys of their slots. -/
def Registered (s : Board ι κ ρ) : Prop :=
  ∀ key slot, s.flights.lookup key = some slot → ∃ x, s.slots[slot]? = some x ∧ x.key = key

/-- Nothing is owed to this slot any more. -/
structure Done (s : Board ι κ ρ) (slot : ℕ) : Prop where
  result : s.resultOf slot ≠ none
  flights : ∀ key, s.flights.lookup key ≠ some slot
  asleep : ∀ j, (j, slot) ∉ s.asleep

/-- Where a thread stands, and what it owes to the slots that it has created. -/
structure Stands (i : ι) (s : Board ι κ ρ) (p : Phase κ ρ) : Prop where
  leads : ∀ key slot, p.leads = some (key, slot) →
    ∃ x, s.slots[slot]? = some x ∧ x.key = key ∧ x.leader = i
  registered : ∀ key slot, p = .leading key slot ∨ p = .dropping key slot →
    s.flights.lookup key = some slot
  unregistered : ∀ key slot, p = .unregistered key slot ∨ p = .settled key slot →
    ∀ key', s.flights.lookup key' ≠ some slot
  settled : ∀ key slot, p = .settled key slot → s.resultOf slot ≠ none
  done : ∀ (slot : ℕ) (x : InFlightSlot ι κ ρ), s.slots[slot]? = some x → x.leader = i →
    (∀ key, p.leads ≠ some (key, slot)) → s.Done slot
  follows : ∀ key slot cancellable, p = .following key slot cancellable →
    ∃ x, s.slots[slot]? = some x ∧ x.key = key
  asleep : ∀ slot, (i, slot) ∈ s.asleep → ∃ key cancellable, p = .following key slot cancellable

/-- What an act of one thread leaves to the others. -/
structure Frame (i : ι) (s s' : Board ι κ ρ) : Prop where
  slots : ∀ (slot : ℕ) (x : InFlightSlot ι κ ρ), s.slots[slot]? = some x →
    ∃ x' : InFlightSlot ι κ ρ, s'.slots[slot]? = some x' ∧ x'.key = x.key ∧ x'.leader = x.leader ∧
      (x'.result = none → x.result = none)
  before : ∀ (slot : ℕ) (x' : InFlightSlot ι κ ρ), s'.slots[slot]? = some x' → x'.leader ≠ i →
    ∃ x : InFlightSlot ι κ ρ, s.slots[slot]? = some x
  registered : ∀ key slot (x : InFlightSlot ι κ ρ), s.flights.lookup key = some slot →
    s.slots[slot]? = some x → x.leader ≠ i → s'.flights.lookup key = some slot
  flights : ∀ key slot (x : InFlightSlot ι κ ρ), s'.flights.lookup key = some slot →
    s.slots[slot]? = some x → x.leader ≠ i → s.flights.lookup key = some slot
  asleep : ∀ j slot, (j, slot) ∈ s'.asleep → (j, slot) ∈ s.asleep ∨ (j = i ∧ s.resultOf slot = none)

variable {s s' : Board ι κ ρ} {i j : ι} {p p' q : Phase κ ρ} {key : κ} {slot : ℕ}

omit [DecidableEq ι] [DecidableEq κ] in
lemma resultOf_eq {x : InFlightSlot ι κ ρ} (hx : s.slots[slot]? = some x) : s.resultOf slot = x.result := by
  rw [resultOf, hx]
  rfl

omit [DecidableEq ι] in
lemma Frame.result (h : Frame i s s') {x : InFlightSlot ι κ ρ} (hx : s.slots[slot]? = some x)
    (hresult : s.resultOf slot ≠ none) : s'.resultOf slot ≠ none := by
  obtain ⟨x', hx', -, -, hnone⟩ := h.slots slot x hx
  rw [resultOf_eq hx] at hresult
  rw [resultOf_eq hx']
  exact fun h => hresult (hnone h)

omit [DecidableEq ι] in
lemma Frame.stands (h : Frame i s s') (hne : j ≠ i) (hq : Stands j s q) : Stands j s' q where
  leads key slot hleads := by
    obtain ⟨x, hx, hkey, hleader⟩ := hq.leads key slot hleads
    obtain ⟨x', hx', hkey', hleader', -⟩ := h.slots slot x hx
    exact ⟨x', hx', hkey'.trans hkey, hleader'.trans hleader⟩
  registered key slot hphase := by
    have hleads : q.leads = some (key, slot) := by
      obtain rfl | rfl := hphase
      · rfl
      · rfl
    obtain ⟨x, hx, -, hleader⟩ := hq.leads key slot hleads
    exact h.registered key slot x (hq.registered key slot hphase) hx (hleader ▸ hne)
  unregistered key slot hphase key' hflight := by
    have hleads : q.leads = some (key, slot) := by
      obtain rfl | rfl := hphase
      · rfl
      · rfl
    obtain ⟨x, hx, -, hleader⟩ := hq.leads key slot hleads
    exact hq.unregistered key slot hphase key' (h.flights key' slot x hflight hx (hleader ▸ hne))
  settled key slot hphase := by
    obtain ⟨x, hx, -⟩ := hq.leads key slot (by rw [hphase]; rfl)
    exact h.result hx (hq.settled key slot hphase)
  done slot x' hx' hleader hleads := by
    obtain ⟨x, hx⟩ := h.before slot x' hx' (hleader ▸ hne)
    obtain ⟨y, hy, -, hleader', -⟩ := h.slots slot x hx
    obtain rfl := Option.some.inj (hy.symm.trans hx')
    have hdone := hq.done slot x hx (hleader'.symm.trans hleader) hleads
    refine ⟨h.result hx hdone.result, fun key hflight => ?_, fun k hasleep => ?_⟩
    · exact hdone.flights key (h.flights key slot x hflight hx (hleader'.symm.trans hleader ▸ hne))
    · obtain hbefore | ⟨-, hnone⟩ := h.asleep k slot hasleep
      · exact hdone.asleep k hbefore
      · exact hdone.result hnone
  follows key slot cancellable hfollows := by
    obtain ⟨x, hx, hkey⟩ := hq.follows key slot cancellable hfollows
    obtain ⟨x', hx', hkey', -⟩ := h.slots slot x hx
    exact ⟨x', hx', hkey'.trans hkey⟩
  asleep slot hasleep := by
    obtain hbefore | ⟨rfl, -⟩ := h.asleep j slot hasleep
    · exact hq.asleep slot hbefore
    · exact absurd rfl hne

omit [DecidableEq ι] in
/-- A frame in which the slots and the flights stay. -/
lemma frame_of_same (hslots : s'.slots = s.slots) (hflights : s'.flights = s.flights)
    (hasleep : ∀ j slot, (j, slot) ∈ s'.asleep → (j, slot) ∈ s.asleep ∨
      (j = i ∧ s.resultOf slot = none)) : Frame i s s' where
  slots slot x hx := ⟨x, by rw [hslots, hx], rfl, rfl, id⟩
  before slot x hx _ := ⟨x, by rw [← hslots, hx]⟩
  registered key slot _ hflight _ _ := by rw [hflights, hflight]
  flights key slot _ hflight _ _ := by rw [← hflights, hflight]
  asleep := hasleep

omit [DecidableEq ι] in
lemma Frame.refl (i : ι) (s : Board ι κ ρ) : Frame i s s :=
  frame_of_same rfl rfl fun _ _ h => .inl h

/-- What an act keeps. -/
structure Kept (i : ι) (s s' : Board ι κ ρ) (p' : Phase κ ρ) : Prop where
  registered : s'.Registered
  stands : Stands i s' p'
  frame : Frame i s s'

/-! ## The acts of a follower -/

omit [DecidableEq ι] in
/-- A thread that leads nothing, before and after. -/
lemma kept_of_same (hs : s.Registered) (hp : Stands i s p) (hleads : p.leads = none)
    (hleads' : p'.leads = none) (hslots : s'.slots = s.slots) (hflights : s'.flights = s.flights)
    (hasleep : ∀ j slot, (j, slot) ∈ s'.asleep → (j, slot) ∈ s.asleep ∨
      (j = i ∧ s.resultOf slot = none))
    (hfollows : ∀ key slot cancellable, p' = .following key slot cancellable →
      ∃ x, s.slots[slot]? = some x ∧ x.key = key)
    (hsleeps : ∀ slot, (i, slot) ∈ s'.asleep → ∃ key cancellable, p' = .following key slot cancellable) :
    Kept i s s' p' := by
  have hresult : ∀ slot, s'.resultOf slot = s.resultOf slot := fun slot => by rw [resultOf, hslots, resultOf]
  refine ⟨?_, ⟨?_, ?_, ?_, ?_, ?_, ?_, hsleeps⟩, frame_of_same hslots hflights hasleep⟩
  · rw [Registered, hslots, hflights]
    exact hs
  · intro key slot h
    rw [hleads'] at h
    cases h
  · rintro key slot (rfl | rfl) <;> cases hleads'
  · rintro key slot (rfl | rfl) <;> cases hleads'
  · rintro key slot rfl
    cases hleads'
  · intro slot x hx hleader _
    rw [hslots] at hx
    have hdone := hp.done slot x hx hleader (by simp [hleads])
    refine ⟨by rw [hresult]; exact hdone.result, by rw [hflights]; exact hdone.flights, fun j hj => ?_⟩
    obtain hbefore | ⟨-, hnone⟩ := hasleep j slot hj
    · exact hdone.asleep j hbefore
    · exact hdone.result hnone
  · rw [hslots]
    exact hfollows

/-! ## The acts of a leader -/

omit [DecidableEq ι] in
lemma Done.mono (h : s.Done slot) (hresult : s'.resultOf slot = none → s.resultOf slot = none)
    (hflights : ∀ key, s'.flights.lookup key = some slot → s.flights.lookup key = some slot)
    (hasleep : s'.asleep ⊆ s.asleep) : s'.Done slot :=
  ⟨fun hnone => h.result (hresult hnone), fun key hflight => h.flights key (hflights key hflight),
    fun j hj => h.asleep j (hasleep hj)⟩

omit [DecidableEq ι] [DecidableEq κ] in
lemma getElem?_setResult {result : ρ} {slot' : ℕ} {x' : InFlightSlot ι κ ρ} :
    (s.setResult slot result).slots[slot']? = some x' ↔
      ∃ x, s.slots[slot']? = some x ∧ x' = if slot = slot' then { x with result := some result } else x := by
  rw [setResult, List.getElem?_modify, Option.map_eq_map, Option.map_eq_some_iff]
  refine exists_congr fun x => and_congr_right fun _ => ?_
  split_ifs
  · exact eq_comm
  · exact eq_comm

omit [DecidableEq ι] [DecidableEq κ] in
lemma resultOf_setResult {result : ρ} {slot' : ℕ} (h : (s.setResult slot result).resultOf slot' = none) :
    s.resultOf slot' = none := by
  rw [resultOf, Option.bind_eq_none_iff] at h ⊢
  intro x hx
  have hnone := h _ (getElem?_setResult.mpr ⟨x, hx, rfl⟩)
  split_ifs at hnone
  exact hnone

omit [DecidableEq ι] [DecidableEq κ] in
lemma resultOf_setResult_self {result : ρ} (h : ∃ x, s.slots[slot]? = some x) :
    (s.setResult slot result).resultOf slot = some result := by
  obtain ⟨x, hx⟩ := h
  rw [resultOf_eq (getElem?_setResult.mpr ⟨x, hx, rfl⟩), if_pos rfl]

omit [DecidableEq ι] in
lemma frame_setResult (i : ι) (s : Board ι κ ρ) (slot : ℕ) (result : ρ) :
    Frame i s (s.setResult slot result) where
  slots slot' x hx := by
    refine ⟨_, getElem?_setResult.mpr ⟨x, hx, rfl⟩, ?_⟩
    split_ifs
    · exact ⟨rfl, rfl, fun h => by cases h⟩
    · exact ⟨rfl, rfl, id⟩
  before slot' x' hx' _ := by
    obtain ⟨x, hx, -⟩ := getElem?_setResult.mp hx'
    exact ⟨x, hx⟩
  registered _ _ _ hflight _ _ := hflight
  flights _ _ _ hflight _ _ := hflight
  asleep _ _ h := .inl h

omit [DecidableEq ι] in
lemma Registered.setResult (hs : s.Registered) (slot : ℕ) (result : ρ) :
    (s.setResult slot result).Registered := by
  intro key slot' hflight
  obtain ⟨x, hx, hkey⟩ := hs key slot' hflight
  obtain ⟨x', hx', hkey', -⟩ := (frame_setResult x.leader s slot result).slots slot' x hx
  exact ⟨x', hx', hkey'.trans hkey⟩

omit [DecidableEq ι] in
/-- The leader stores a result, or nothing, and goes on. -/
lemma kept_leading (hs : s.Registered) (hp : Stands i s (.leading key slot))
    (hs' : s' = s ∨ ∃ result, s' = s.setResult slot result) : Kept i s s' (.dropping key slot) := by
  have hframe : Frame i s s' ∧ s'.Registered ∧ (∀ slot', s'.resultOf slot' = none → s.resultOf slot' = none) ∧
      s'.flights = s.flights ∧ s'.asleep = s.asleep := by
    obtain rfl | ⟨result, rfl⟩ := hs'
    · exact ⟨Frame.refl i s', hs, fun _ => id, rfl, rfl⟩
    · exact ⟨frame_setResult i s slot result, hs.setResult slot result, fun _ => resultOf_setResult, rfl, rfl⟩
  obtain ⟨hframe, hregistered, hresult, hflights, hasleep⟩ := hframe
  refine ⟨hregistered, ⟨?_, ?_, ?_, ?_, ?_, ?_, ?_⟩, hframe⟩
  · intro key' slot' hleads
    obtain ⟨x, hx, hkey, hleader⟩ := hp.leads key' slot' hleads
    obtain ⟨x', hx', hkey', hleader', -⟩ := hframe.slots slot' x hx
    exact ⟨x', hx', hkey'.trans hkey, hleader'.trans hleader⟩
  · rintro key' slot' (hphase | hphase)
    · cases hphase
    · obtain ⟨rfl, rfl⟩ := Phase.dropping.inj hphase
      rw [hflights]
      exact hp.registered key slot (.inl rfl)
  · rintro key' slot' (hphase | hphase) <;> cases hphase
  · rintro key' slot' hphase
    cases hphase
  · intro slot' x' hx' hleader hleads
    by_cases hown : slot' = slot
    · subst hown
      exact absurd rfl (hleads key)
    · have hx : s.slots[slot']? = some x' := by
        obtain rfl | ⟨result, rfl⟩ := hs'
        · exact hx'
        · obtain ⟨x, hx, rfl⟩ := getElem?_setResult.mp hx'
          rwa [if_neg (Ne.symm hown)]
      exact (hp.done slot' x' hx hleader hleads).mono (hresult slot') (by simp [hflights]) hasleep.subset
  · rintro key' slot' cancellable hphase
    cases hphase
  · intro slot' h
    rw [hasleep] at h
    obtain ⟨_, _, hphase⟩ := hp.asleep slot' h
    cases hphase

omit [DecidableEq ι] in
lemma kept_unregister (hs : s.Registered) (hp : Stands i s (.dropping key slot)) :
    Kept i s (s.unregister key slot) (.unregistered key slot) := by
  have hflight := hp.registered key slot (.inr rfl)
  obtain ⟨x, hx, hkey, hleader⟩ := hp.leads key slot rfl
  have hback : ∀ key' slot', (s.flights.erase key).lookup key' = some slot' →
      s.flights.lookup key' = some slot' ∧ key' ≠ key := by
    intro key' slot' h
    by_cases hne : key' = key
    · subst hne
      simp [AList.lookup_erase] at h
    · rw [AList.lookup_erase_ne hne] at h
      exact ⟨h, hne⟩
  rw [unregister, if_pos hflight]
  refine ⟨fun key' slot' h => hs key' slot' (hback key' slot' h).1, ⟨hp.leads, ?_, ?_, ?_, ?_, ?_, ?_⟩,
    ⟨fun slot x hx => ⟨x, hx, rfl, rfl, id⟩, fun slot x hx _ => ⟨x, hx⟩, ?_, ?_, fun _ _ h => .inl h⟩⟩
  · rintro key' slot' (hphase | hphase) <;> cases hphase
  · rintro key' slot' (hphase | hphase) key'' h
    · obtain ⟨rfl, rfl⟩ := Phase.unregistered.inj hphase
      obtain ⟨hold, hne⟩ := hback key'' slot h
      obtain ⟨y, hy, hkey'⟩ := hs key'' slot hold
      obtain rfl := Option.some.inj (hx.symm.trans hy)
      exact hne (hkey'.symm.trans hkey)
    · cases hphase
  · rintro key' slot' hphase
    cases hphase
  · intro slot' x' hx' hleader' hleads
    refine (hp.done slot' x' hx' hleader' hleads).mono id (fun key' h => (hback key' slot' h).1) subset_rfl
  · rintro key' slot' cancellable hphase
    cases hphase
  · intro slot' h
    obtain ⟨_, _, hphase⟩ := hp.asleep slot' h
    cases hphase
  · intro key' slot' x' h hx' hother
    have hne : key' ≠ key := by
      rintro rfl
      obtain rfl := Option.some.inj (hflight.symm.trans h)
      obtain rfl := Option.some.inj (hx.symm.trans hx')
      exact hother hleader
    exact (AList.lookup_erase_ne hne).trans h
  · intro key' slot' _ h _ _
    exact (hback key' slot' h).1

omit [DecidableEq ι] in
lemma kept_settle (hs : s.Registered) (hp : Stands i s (.unregistered key slot)) (result : ρ) :
    Kept i s (if (s.resultOf slot).isNone then s.setResult slot result else s) (.settled key slot) := by
  obtain ⟨x, hx, hkey, hleader⟩ := hp.leads key slot rfl
  -- nothing but the result of this slot changes
  have hcases : ∃ s', (if (s.resultOf slot).isNone then s.setResult slot result else s) = s' ∧
      Frame i s s' ∧ s'.Registered ∧ (∀ slot', s'.resultOf slot' = none → s.resultOf slot' = none) ∧
      s'.resultOf slot ≠ none ∧ s'.flights = s.flights ∧ s'.asleep = s.asleep ∧
      ∀ slot' ≠ slot, s'.slots[slot']? = s.slots[slot']? := by
    by_cases hnone : (s.resultOf slot).isNone
    · refine ⟨_, if_pos hnone, frame_setResult i s slot result, hs.setResult slot result,
        fun _ => resultOf_setResult, ?_, rfl, rfl, fun slot' hne => ?_⟩
      · rw [resultOf_setResult_self ⟨x, hx⟩]
        exact Option.some_ne_none _
      · exact List.getElem?_modify_ne _ _ (Ne.symm hne)
    · exact ⟨s, if_neg hnone, Frame.refl i s, hs, fun _ => id, by simpa using hnone, rfl, rfl, fun _ _ => rfl⟩
  obtain ⟨s', heq, hframe, hregistered, hresult, hset, hflights, hasleep, hslots⟩ := hcases
  rw [heq]
  refine ⟨hregistered, ⟨?_, ?_, ?_, ?_, ?_, ?_, ?_⟩, hframe⟩
  · intro key' slot' hleads
    obtain ⟨y, hy, hkey', hleader'⟩ := hp.leads key' slot' hleads
    obtain ⟨y', hy', hkey'', hleader'', -⟩ := hframe.slots slot' y hy
    exact ⟨y', hy', hkey''.trans hkey', hleader''.trans hleader'⟩
  · rintro key' slot' (hphase | hphase) <;> cases hphase
  · rintro key' slot' (hphase | hphase) key''
    · cases hphase
    · obtain ⟨rfl, rfl⟩ := Phase.settled.inj hphase
      rw [hflights]
      exact hp.unregistered key slot (.inl rfl) key''
  · rintro key' slot' hphase
    obtain ⟨rfl, rfl⟩ := Phase.settled.inj hphase
    exact hset
  · intro slot' y hy hleader' hleads
    have hne : slot' ≠ slot := fun h => hleads key (by rw [h]; rfl)
    rw [hslots slot' hne] at hy
    exact (hp.done slot' y hy hleader' hleads).mono (hresult slot') (by simp [hflights]) hasleep.subset
  · rintro key' slot' cancellable hphase
    cases hphase
  · intro slot' h
    rw [hasleep] at h
    obtain ⟨_, _, hphase⟩ := hp.asleep slot' h
    cases hphase

omit [DecidableEq ι] [DecidableEq κ] in
lemma mem_notifyAll {slot' : ℕ} :
    (j, slot') ∈ (s.notifyAll slot).asleep ↔ (j, slot') ∈ s.asleep ∧ slot' ≠ slot := by
  simp [notifyAll]

omit [DecidableEq ι] in
lemma kept_notify (hs : s.Registered) (hp : Stands i s (.settled key slot)) :
    Kept i s (s.notifyAll slot) .idle := by
  refine ⟨hs, ⟨?_, ?_, ?_, ?_, ?_, ?_, ?_⟩, frame_of_same rfl rfl fun j slot' h =>
    .inl (mem_notifyAll.mp h).1⟩
  · intro key' slot' h
    cases h
  · rintro key' slot' (hphase | hphase) <;> cases hphase
  · rintro key' slot' (hphase | hphase) <;> cases hphase
  · rintro key' slot' hphase
    cases hphase
  · intro slot' x hx hleader _
    by_cases hown : slot' = slot
    · -- all that was owed to the slot is given
      subst hown
      exact ⟨hp.settled key slot' rfl, hp.unregistered key slot' (.inr rfl),
        fun j h => (mem_notifyAll.mp h).2 rfl⟩
    · have hdone : s.Done slot' := by
        refine hp.done slot' x hx hleader fun key' h => hown ?_
        exact (Prod.mk.inj (Option.some.inj h)).2.symm
      exact hdone.mono id (fun _ => id) (Finset.filter_subset _ _)
  · rintro key' slot' cancellable hphase
    cases hphase
  · intro slot' h
    obtain ⟨_, _, hphase⟩ := hp.asleep slot' (mem_notifyAll.mp h).1
    cases hphase

/-! ## A call -/

omit [DecidableEq ι] [DecidableEq κ] in
lemma getElem?_concat {slots : List (InFlightSlot ι κ ρ)} {x y : InFlightSlot ι κ ρ} :
    (slots ++ [y])[slot]? = some x ↔ slots[slot]? = some x ∨ (slot = slots.length ∧ x = y) := by
  rw [List.getElem?_append]
  split_ifs with hlt
  · exact ⟨.inl, fun h => h.resolve_right fun h => hlt.ne h.1⟩
  · have hnone : slots[slot]? = none := List.getElem?_eq_none (by omega)
    rw [hnone, List.getElem?_singleton]
    split_ifs with hzero
    · have heq : slot = slots.length := by omega
      simp [heq, eq_comm]
    · have hne : slot ≠ slots.length := by omega
      simp [hne]

omit [DecidableEq ι] in
lemma kept_register (hs : s.Registered) (hp : Stands i s p) (hleads : p.leads = none)
    (hfollows : ∀ key slot cancellable, p ≠ .following key slot cancellable) (cancellable : Bool) :
    Kept i s (s.register i key cancellable).1 (s.register i key cancellable).2 := by
  have hawake : ∀ slot, (i, slot) ∉ s.asleep := by
    intro slot hasleep
    obtain ⟨key', cancellable', hphase⟩ := hp.asleep slot hasleep
    exact hfollows key' slot cancellable' hphase
  rw [register]
  cases hlookup : s.flights.lookup key with
  | some slot =>
    refine kept_of_same hs hp hleads rfl rfl rfl (fun _ _ h => .inl h) ?_ fun slot' h => absurd h (hawake slot')
    intro key' slot' cancellable' hphase
    obtain ⟨rfl, rfl, -⟩ := Phase.following.inj hphase
    exact hs key slot hlookup
  | none =>
    have hlt : ∀ key' slot', s.flights.lookup key' = some slot' → slot' ≠ s.slots.length := by
      rintro key' slot' h rfl
      obtain ⟨x, hx, -⟩ := hs key' _ h
      simp at hx
    have hflights : ∀ key' slot', (s.flights.insert key s.slots.length).lookup key' = some slot' ↔
        (key' = key ∧ slot' = s.slots.length) ∨ s.flights.lookup key' = some slot' := by
      intro key' slot'
      by_cases hne : key' = key
      · subst hne
        simp [hlookup, eq_comm]
      · simp [hne, AList.lookup_insert_ne hne]
    refine ⟨?_, ⟨?_, ?_, ?_, ?_, ?_, ?_, fun slot' h => absurd h (hawake slot')⟩,
      ⟨fun slot' x hx => ⟨x, getElem?_concat.mpr (.inl hx), rfl, rfl, id⟩, ?_, ?_, ?_, fun _ _ h => .inl h⟩⟩
    · intro key' slot' h
      obtain ⟨rfl, rfl⟩ | h := (hflights key' slot').mp h
      · exact ⟨_, getElem?_concat.mpr (.inr ⟨rfl, rfl⟩), rfl⟩
      · obtain ⟨x, hx, hkey⟩ := hs key' slot' h
        exact ⟨x, getElem?_concat.mpr (.inl hx), hkey⟩
    · intro key' slot' h
      obtain ⟨rfl, rfl⟩ := Prod.mk.inj (Option.some.inj h)
      exact ⟨_, getElem?_concat.mpr (.inr ⟨rfl, rfl⟩), rfl, rfl⟩
    · rintro key' slot' (hphase | hphase)
      · obtain ⟨rfl, rfl⟩ := Phase.leading.inj hphase
        exact (hflights key _).mpr (.inl ⟨rfl, rfl⟩)
      · cases hphase
    · rintro key' slot' (hphase | hphase) <;> cases hphase
    · rintro key' slot' hphase
      cases hphase
    · -- the new slot is led, and nothing is owed to the others
      intro slot' x hx hleader hother
      obtain hx | ⟨rfl, rfl⟩ := getElem?_concat.mp hx
      · have hdone := hp.done slot' x hx hleader (by simp [hleads])
        have hne : slot' ≠ s.slots.length := by
          rintro rfl
          simp at hx
        refine ⟨?_, fun key' h => ?_, hdone.asleep⟩
        · rw [resultOf_eq (getElem?_concat.mpr (.inl hx)), ← resultOf_eq hx]
          exact hdone.result
        · obtain ⟨-, heq⟩ | h := (hflights key' slot').mp h
          · exact hne heq
          · exact hdone.flights key' h
      · exact absurd rfl (hother key)
    · rintro key' slot' cancellable' hphase
      cases hphase
    · intro slot' x hx hother
      obtain hx | ⟨-, rfl⟩ := getElem?_concat.mp hx
      · exact ⟨x, hx⟩
      · exact absurd rfl hother
    · intro key' slot' _ h _ _
      exact (hflights key' slot').mpr (.inr h)
    · intro key' slot' x h hx _
      obtain ⟨-, rfl⟩ | h := (hflights key' slot').mp h
      · simp at hx
      · exact h

lemma kept_act {s s' : Board ι κ (Outcome V F)} {p p' : Phase κ (Outcome V F)} {a : Act κ (Outcome V F)}
    (hs : s.Registered) (hp : Stands i s p) (h : act i a s p = some (s', p')) : Kept i s s' p' := by
  unfold act at h
  split at h
  · -- call, from idle
    rw [← (Prod.mk.inj (Option.some.inj h)).1, ← (Prod.mk.inj (Option.some.inj h)).2]
    exact kept_register hs hp rfl (by simp) _
  · -- call, after a return
    rw [← (Prod.mk.inj (Option.some.inj h)).1, ← (Prod.mk.inj (Option.some.inj h)).2]
    exact kept_register hs hp rfl (by simp) _
  · -- finish
    obtain ⟨rfl, rfl⟩ := Prod.mk.inj (Option.some.inj h)
    exact kept_leading hs hp (.inr ⟨_, rfl⟩)
  · -- panic
    obtain ⟨rfl, rfl⟩ := Prod.mk.inj (Option.some.inj h)
    exact kept_leading hs hp (.inl rfl)
  · obtain ⟨rfl, rfl⟩ := Prod.mk.inj (Option.some.inj h)
    exact kept_unregister hs hp
  · obtain ⟨rfl, rfl⟩ := Prod.mk.inj (Option.some.inj h)
    exact kept_settle hs hp dropped
  · obtain ⟨rfl, rfl⟩ := Prod.mk.inj (Option.some.inj h)
    exact kept_notify hs hp
  · -- poll
    rename_i cancelled key slot cancellable
    have hawake : (i, slot) ∉ s.asleep → ∀ slot', (i, slot') ∉ s.asleep := by
      intro hasleep slot' h
      obtain ⟨key', cancellable', hphase⟩ := hp.asleep slot' h
      obtain ⟨-, rfl, -⟩ := Phase.following.inj hphase
      exact hasleep h
    have hreturned : ∀ result, (i, slot) ∉ s.asleep → Kept i s s (.returned key result) :=
      fun result hasleep => kept_of_same hs hp rfl rfl rfl rfl (fun _ _ h => .inl h) (by simp)
        fun slot' h => absurd h (hawake hasleep slot')
    split_ifs at h with hasleep hcancelled
    · obtain ⟨rfl, rfl⟩ := Prod.mk.inj (Option.some.inj h)
      exact hreturned none hasleep
    · split at h
      · obtain ⟨rfl, rfl⟩ := Prod.mk.inj (Option.some.inj h)
        exact hreturned _ hasleep
      · rename_i hnone
        obtain ⟨rfl, rfl⟩ := Prod.mk.inj (Option.some.inj h)
        have hmem : ∀ j slot', (j, slot') ∈ insert (i, slot) s.asleep →
            (j = i ∧ slot' = slot) ∨ (j, slot') ∈ s.asleep := by
          simp
        refine kept_of_same hs hp rfl rfl rfl rfl ?_ hp.follows ?_
        · intro j slot' h
          obtain ⟨rfl, rfl⟩ | h := hmem j slot' h
          · exact .inr ⟨rfl, hnone⟩
          · exact .inl h
        · intro slot' h
          obtain ⟨-, rfl⟩ | h := hmem i slot' h
          · exact ⟨key, cancellable, rfl⟩
          · exact hp.asleep slot' h
  · -- wake
    obtain ⟨rfl, rfl⟩ := Prod.mk.inj (Option.some.inj h)
    exact kept_of_same hs hp rfl rfl rfl rfl (fun _ _ h => .inl (Finset.mem_of_mem_erase h)) hp.follows
      fun slot' h => hp.asleep slot' (Finset.mem_of_mem_erase h)
  · cases h

lemma sound_act : Agents.Sound (act (ι := ι) (κ := κ) (V := V) (F := F)) Registered Stands := by
  intro i a s p s' p' hs hp h
  have hkept := kept_act hs hp h
  exact ⟨hkept.registered, hkept.stands, fun j q hne hq => hkept.frame.stands hne hq⟩

end Board

/-! ## Runs -/

abbrev World (ι κ V F : Type) := Agents ι (Board ι κ (Outcome V F)) (Phase κ (Outcome V F))

def atRest (ι κ V F : Type) : World ι κ V F := ⟨Board.empty, fun _ => .idle⟩

abbrev step (w : World ι κ V F) (a : ι × Act κ (Outcome V F)) : Option (World ι κ V F) :=
  w.step Board.act a

variable {w w' : World ι κ V F} {i j : ι} {key : κ} {slot slot' : ℕ}

omit [DecidableEq ι] in
lemma holds_atRest : (atRest ι κ V F).Holds Board.Registered Board.Stands := by
  refine ⟨fun key slot h => (by cases h), fun i => ⟨?_, ?_, ?_, ?_, ?_, ?_, ?_⟩⟩
  · intro key slot h
    cases h
  · rintro key slot (h | h) <;> cases h
  · rintro key slot (h | h) <;> cases h
  · intro key slot h
    cases h
  · intro slot x hx
    cases hx
  · intro key slot cancellable h
    cases h
  · intro slot h
    exact absurd h (Finset.notMem_empty _)

lemma holds_of_steps (h : Steps step (atRest ι κ V F) w) : w.Holds Board.Registered Board.Stands :=
  Board.sound_act.steps holds_atRest h

/-- **One computation for a key at a time.**  Two threads never compute for the same key, and whoever calls for
it meanwhile follows the one that does. -/
theorem one_leader (h : Steps step (atRest ι κ V F) w) (hi : w.phase i = .leading key slot) :
    (∀ j slot', w.phase j = .leading key slot' → j = i) ∧
      ∀ j cancellable, w.phase j = .idle → ∃ w', step w (j, .call key cancellable) = some w' ∧
        w'.phase j = .following key slot cancellable := by
  have hw := holds_of_steps h
  have hflight := (hw.agent i).registered key slot (.inl hi)
  obtain ⟨x, hx, -, hleader⟩ := (hw.agent i).leads key slot (by rw [hi]; rfl)
  refine ⟨fun j slot' hj => ?_, fun j cancellable hj => ?_⟩
  · have hflight' := (hw.agent j).registered key slot' (.inl hj)
    obtain rfl := Option.some.inj (hflight.symm.trans hflight')
    obtain ⟨y, hy, -, hleader'⟩ := (hw.agent j).leads key slot (by rw [hj]; rfl)
    obtain rfl := Option.some.inj (hx.symm.trans hy)
    exact hleader'.symm.trans hleader
  · have hact : Board.act j (.call key cancellable) w.shared (w.phase j) =
        some (w.shared, .following key slot cancellable) := by
      rw [hj, Board.act, Board.register, hflight]
    exact ⟨_, Agents.step_eq_some.mpr ⟨_, _, hact, rfl⟩, Function.update_self _ _ _⟩

/-- A call leads, and another one follows and falls asleep. -/
def joined : List (ℕ × Act ℕ (Outcome ℕ Empty)) := [(0, .call 7 false), (1, .call 7 true), (1, .poll false)]

theorem one_leader_joined : ∃ w, run step (atRest ℕ ℕ ℕ Empty) joined = some w ∧
    w.phase 0 = .leading 7 0 ∧ ∀ j slot, w.phase j = .leading 7 slot → j = 0 := by
  have hrun : ∃ w, run step (atRest ℕ ℕ ℕ Empty) joined = some w ∧ w.phase 0 = .leading 7 0 := ⟨_, rfl, rfl⟩
  obtain ⟨w, hw, hphase⟩ := hrun
  exact ⟨w, hw, hphase, fun j slot => (one_leader (steps_of_run hw) hphase).1 j slot⟩

/-- How many acts the leader still has to take. -/
def Phase.remaining {ρ : Type} : Phase κ ρ → ℕ
  | .leading _ _ => 4
  | .dropping _ _ => 3
  | .unregistered _ _ => 2
  | .settled _ _ => 1
  | .idle | .following _ _ _ | .returned _ _ => 0

/-- The next act of a leader, whose computation has this outcome or panics. -/
def Phase.nextAct {ρ : Type} (outcome : Option ρ) : Phase κ ρ → Act κ ρ
  | .leading _ _ => outcome.elim .panic .finish
  | .dropping _ _ => .unregister
  | .unregistered _ _ => .settle
  | .idle | .following _ _ _ | .returned _ _ | .settled _ _ => .notify

/-- A leader is never held up. -/
lemma step_leader (hi : (w.phase i).leads = some (key, slot)) (outcome : Option (Outcome V F)) :
    ∃ w', step w (i, (w.phase i).nextAct outcome) = some w' ∧
      (w'.phase i).remaining < (w.phase i).remaining := by
  have hact : ∃ s' p', Board.act i ((w.phase i).nextAct outcome) w.shared (w.phase i) = some (s', p') ∧
      p'.remaining < (w.phase i).remaining := by
    generalize w.phase i = p at hi
    cases p with
    | leading key slot =>
      cases outcome with
      | none => exact ⟨_, _, rfl, Nat.lt_succ_self _⟩
      | some result => exact ⟨_, _, rfl, Nat.lt_succ_self _⟩
    | dropping key slot => exact ⟨_, _, rfl, Nat.lt_succ_self _⟩
    | unregistered key slot => exact ⟨_, _, rfl, Nat.lt_succ_self _⟩
    | settled key slot => exact ⟨_, _, rfl, Nat.lt_succ_self _⟩
    | idle | following _ _ _ | returned _ _ => cases hi
  obtain ⟨s', p', hact, hlt⟩ := hact
  exact ⟨_, Agents.step_eq_some.mpr ⟨s', p', hact, rfl⟩, by simpa using hlt⟩

/-- **No follower is left behind**, whether the computation ends or panics: while the slot of a follower has no
result, or the follower sleeps, some thread leads the slot, and nothing holds it up; and otherwise the follower
returns the result as soon as it looks. -/
theorem follower_is_released (h : Steps step (atRest ι κ V F) w) {cancellable : Bool}
    (hi : w.phase i = .following key slot cancellable) :
    (∃ j, (w.phase j).leads = some (key, slot) ∧ ∀ outcome, ∃ w',
      step w (j, (w.phase j).nextAct outcome) = some w' ∧
        (w'.phase j).remaining < (w.phase j).remaining) ∨
    ∃ result w', w.shared.resultOf slot = some result ∧ step w (i, .poll false) = some w' ∧
      w'.phase i = .returned key (some result) := by
  have hw := holds_of_steps h
  obtain ⟨x, hx, hkey⟩ := (hw.agent i).follows key slot cancellable hi
  by_cases hleads : ∃ key', (w.phase x.leader).leads = some (key', slot)
  · obtain ⟨key', hleads⟩ := hleads
    obtain ⟨y, hy, hkey', -⟩ := (hw.agent x.leader).leads key' slot hleads
    obtain rfl := Option.some.inj (hx.symm.trans hy)
    obtain rfl := hkey'.symm.trans hkey
    exact .inl ⟨_, hleads, step_leader hleads⟩
  · have hdone := (hw.agent x.leader).done slot x hx rfl (not_exists.mp hleads)
    obtain ⟨result, hresult⟩ := Option.ne_none_iff_exists'.mp hdone.result
    have hact : Board.act i (.poll false) w.shared (w.phase i) =
        some (w.shared, .returned key (some result)) := by
      rw [hi, Board.act, if_neg (hdone.asleep i), Bool.and_false, if_neg Bool.false_ne_true, hresult]
    exact .inr ⟨result, _, hresult, Agents.step_eq_some.mpr ⟨_, _, hact, rfl⟩, Function.update_self _ _ _⟩

theorem follower_is_released_joined : ∃ w, run step (atRest ℕ ℕ ℕ Empty) joined = some w ∧
    ((∃ j, (w.phase j).leads = some (7, 0)) ∨ ∃ result, w.shared.resultOf 0 = some result) := by
  have hrun : ∃ w, run step (atRest ℕ ℕ ℕ Empty) joined = some w ∧ w.phase 1 = .following 7 0 true :=
    ⟨_, rfl, rfl⟩
  obtain ⟨w, hw, hphase⟩ := hrun
  refine ⟨w, hw, ?_⟩
  obtain ⟨j, hleads, -⟩ | ⟨result, -, hresult, -⟩ := follower_is_released (steps_of_run hw) hphase
  · exact .inl ⟨j, hleads⟩
  · exact .inr ⟨result, hresult⟩

/-! ## Whose result it is -/

/-- In the run a thread has computed this outcome for the key, or has panicked. -/
def Computed (acts : List (ι × Act κ (Outcome V F))) (key : κ) (result : Outcome V F) : Prop :=
  ∃ front j a back u slot, acts = front ++ (j, a) :: back ∧ run step (atRest ι κ V F) front = some u ∧
    u.phase j = .leading key slot ∧ (a = Act.finish result ∨ (a = Act.panic ∧ result = dropped))

lemma Computed.concat {acts : List (ι × Act κ (Outcome V F))} {result : Outcome V F}
    (h : Computed acts key result) (a : ι × Act κ (Outcome V F)) : Computed (acts ++ [a]) key result := by
  obtain ⟨front, j, b, back, u, slot, rfl, hrest⟩ := h
  exact ⟨front, j, b, back ++ [a], u, slot, by simp, hrest⟩

/-- Every result has been computed. -/
structure Traced (acts : List (ι × Act κ (Outcome V F))) (w : World ι κ V F) : Prop where
  slots : ∀ (slot : ℕ) (x : InFlightSlot ι κ (Outcome V F)) result, w.shared.slots[slot]? = some x →
    x.result = some result → Computed acts x.key result
  /-- A leader that has stored nothing has panicked. -/
  panicked : ∀ i key slot, w.phase i = .dropping key slot ∨ w.phase i = .unregistered key slot →
    w.shared.resultOf slot = none → Computed acts key dropped
  returned : ∀ i key result, w.phase i = .returned key (some result) → Computed acts key result

lemma traced_atRest : Traced [] (atRest ι κ V F) := by
  refine ⟨fun slot x result hx => ?_, fun i key slot h => ?_, fun i key result h => ?_⟩
  · cases hx
  · obtain h | h := h
    · cases h
    · cases h
  · cases h

/-- What a thread has computed so far, and what it returns. -/
structure Grows (acts : List (ι × Act κ (Outcome V F))) (s s' : Board ι κ (Outcome V F))
    (p' : Phase κ (Outcome V F)) : Prop where
  slots : ∀ (slot : ℕ) (x' : InFlightSlot ι κ (Outcome V F)) result, s'.slots[slot]? = some x' →
    x'.result = some result → (∃ x, s.slots[slot]? = some x ∧ x.key = x'.key ∧ x.result = some result) ∨
      Computed acts x'.key result
  panicked : ∀ key slot, p' = .dropping key slot ∨ p' = .unregistered key slot →
    s'.resultOf slot = none → Computed acts key dropped
  returned : ∀ key result, p' = .returned key (some result) → Computed acts key result

lemma grows_of_act {acts : List (ι × Act κ (Outcome V F))} {a : Act κ (Outcome V F)}
    {s' : Board ι κ (Outcome V F)} {p' : Phase κ (Outcome V F)}
    (hrun : run step (atRest ι κ V F) acts = some w) (ht : Traced acts w)
    (hp : Board.Stands i w.shared (w.phase i)) (h : Board.act i a w.shared (w.phase i) = some (s', p')) :
    Grows (acts ++ [(i, a)]) w.shared s' p' := by
  have hsame : ∀ (slot : ℕ) (x : InFlightSlot ι κ (Outcome V F)) result, w.shared.slots[slot]? = some x →
      x.result = some result → (∃ y, w.shared.slots[slot]? = some y ∧ y.key = x.key ∧ y.result = some result) ∨
        Computed (acts ++ [(i, a)]) x.key result :=
    fun slot x result hx hresult => .inl ⟨x, hx, rfl, hresult⟩
  have hcomputed : ∀ key slot result, w.phase i = .leading key slot →
      (a = Act.finish result ∨ (a = Act.panic ∧ result = dropped)) → Computed (acts ++ [(i, a)]) key result :=
    fun key slot result hphase ha => ⟨acts, i, a, [], w, slot, rfl, hrun, hphase, ha⟩
  generalize hphase : w.phase i = p at h
  unfold Board.act at h
  split at h
  case h_1 | h_2 =>
    rename_i key cancellable _
    obtain h := Option.some.inj h
    rw [Board.register] at h
    split at h
    · obtain ⟨rfl, rfl⟩ := Prod.mk.inj h
      refine ⟨hsame, fun key' slot' hp' => ?_, fun key' result hp' => by cases hp'⟩
      obtain hp' | hp' := hp' <;> cases hp'
    · obtain ⟨rfl, rfl⟩ := Prod.mk.inj h
      refine ⟨fun slot' x result hx hresult => ?_, fun key' slot' hp' => ?_, fun key' result hp' => by cases hp'⟩
      · obtain hx | ⟨-, rfl⟩ := Board.getElem?_concat.mp hx
        · exact hsame slot' x result hx hresult
        · cases hresult
      · obtain hp' | hp' := hp' <;> cases hp'
  case h_3 result key slot =>
    obtain ⟨rfl, rfl⟩ := Prod.mk.inj (Option.some.inj h)
    obtain ⟨y, hy, hkey, -⟩ := hp.leads key slot (by rw [hphase]; rfl)
    refine ⟨fun slot' x result' hx hresult => ?_, fun key' slot' hp' hnone => ?_,
      fun key' result hp' => by cases hp'⟩
    · obtain ⟨z, hz, rfl⟩ := Board.getElem?_setResult.mp hx
      split_ifs at hresult ⊢ with hslot
      · subst hslot
        obtain rfl := Option.some.inj (hz.symm.trans hy)
        obtain rfl := Option.some.inj hresult
        exact .inr (hcomputed _ slot result (hkey ▸ hphase) (.inl rfl))
      · exact hsame slot' z result' hz hresult
    · obtain hp' | hp' := hp'
      · obtain ⟨rfl, rfl⟩ := Phase.dropping.inj hp'
        rw [Board.resultOf_setResult_self ⟨y, hy⟩] at hnone
        cases hnone
      · cases hp'
  case h_4 key slot =>
    obtain ⟨rfl, rfl⟩ := Prod.mk.inj (Option.some.inj h)
    refine ⟨hsame, fun key' slot' hp' _ => ?_, fun key' result hp' => by cases hp'⟩
    obtain hp' | hp' := hp'
    · obtain ⟨rfl, rfl⟩ := Phase.dropping.inj hp'
      exact hcomputed key slot dropped hphase (.inr ⟨rfl, rfl⟩)
    · cases hp'
  case h_5 key slot =>
    obtain ⟨rfl, rfl⟩ := Prod.mk.inj (Option.some.inj h)
    have hslots : (w.shared.unregister key slot).slots = w.shared.slots := by
      rw [Board.unregister]
      split_ifs <;> rfl
    refine ⟨by rw [hslots]; exact hsame, fun key' slot' hp' hnone => ?_, fun key' result hp' => by cases hp'⟩
    obtain hp' | hp' := hp'
    · cases hp'
    · obtain ⟨rfl, rfl⟩ := Phase.unregistered.inj hp'
      rw [Board.resultOf, hslots] at hnone
      exact (ht.panicked i key slot (.inl hphase) hnone).concat _
  case h_6 key slot =>
    obtain ⟨rfl, rfl⟩ := Prod.mk.inj (Option.some.inj h)
    obtain ⟨y, hy, hkey, -⟩ := hp.leads key slot (by rw [hphase]; rfl)
    refine ⟨fun slot' x result hx hresult => ?_, fun key' slot' hp' => ?_, fun key' result hp' => by cases hp'⟩
    · split_ifs at hx with hnone
      · obtain ⟨z, hz, rfl⟩ := Board.getElem?_setResult.mp hx
        split_ifs at hresult ⊢ with hslot
        · subst hslot
          obtain rfl := Option.some.inj (hz.symm.trans hy)
          obtain rfl := Option.some.inj hresult
          have hpanicked := ht.panicked i key slot (.inr hphase) (Option.isNone_iff_eq_none.mp hnone)
          exact .inr (hkey ▸ hpanicked.concat _)
        · exact hsame slot' z result hz hresult
      · exact hsame slot' x result hx hresult
    · obtain hp' | hp' := hp' <;> cases hp'
  case h_7 key slot =>
    obtain ⟨rfl, rfl⟩ := Prod.mk.inj (Option.some.inj h)
    refine ⟨hsame, fun key' slot' hp' => ?_, fun key' result hp' => by cases hp'⟩
    obtain hp' | hp' := hp' <;> cases hp'
  case h_8 cancelled key slot cancellable =>
    split_ifs at h
    · obtain ⟨rfl, rfl⟩ := Prod.mk.inj (Option.some.inj h)
      refine ⟨hsame, fun key' slot' hp' => ?_, fun key' result hp' => by cases hp'⟩
      obtain hp' | hp' := hp' <;> cases hp'
    · split at h
      · rename_i result hresult
        obtain ⟨rfl, rfl⟩ := Prod.mk.inj (Option.some.inj h)
        refine ⟨hsame, fun key' slot' hp' => ?_, fun key' result' hp' => ?_⟩
        · obtain hp' | hp' := hp' <;> cases hp'
        · obtain ⟨rfl, heq⟩ := Phase.returned.inj hp'
          obtain rfl := Option.some.inj heq
          obtain ⟨y, hy, hkey⟩ := hp.follows key slot cancellable hphase
          rw [Board.resultOf_eq hy] at hresult
          exact hkey ▸ (ht.slots slot y result hy hresult).concat _
      · obtain ⟨rfl, rfl⟩ := Prod.mk.inj (Option.some.inj h)
        refine ⟨hsame, fun key' slot' hp' => ?_, fun key' result hp' => by cases hp'⟩
        obtain hp' | hp' := hp' <;> cases hp'
  case h_9 key slot cancellable =>
    obtain ⟨rfl, rfl⟩ := Prod.mk.inj (Option.some.inj h)
    refine ⟨hsame, fun key' slot' hp' => ?_, fun key' result hp' => by cases hp'⟩
    obtain hp' | hp' := hp' <;> cases hp'
  case h_10 => cases h

lemma traced_concat {acts : List (ι × Act κ (Outcome V F))} {a : Act κ (Outcome V F)}
    (hrun : run step (atRest ι κ V F) acts = some w) (ht : Traced acts w) (h : step w (i, a) = some w') :
    Traced (acts ++ [(i, a)]) w' := by
  have hw := holds_of_steps (steps_of_run hrun)
  obtain ⟨s', p', hact, rfl⟩ := Agents.step_eq_some.mp h
  have hgrows := grows_of_act hrun ht (hw.agent i) hact
  have hkept := Board.kept_act hw.shared (hw.agent i) hact
  refine ⟨fun slot x result hx hresult => ?_, fun j key slot hphase hnone => ?_, fun j key result hphase => ?_⟩
  · obtain ⟨y, hy, hkey, hresult'⟩ | hcomputed := hgrows.slots slot x result hx hresult
    · exact hkey ▸ (ht.slots slot y result hy hresult').concat _
    · exact hcomputed
  · by_cases hne : j = i
    · subst hne
      simp only [Function.update_self] at hphase
      exact hgrows.panicked key slot hphase hnone
    · simp only [Function.update_of_ne hne] at hphase
      have hleads : (w.phase j).leads = some (key, slot) := by
        obtain hphase | hphase := hphase
        · rw [hphase]
          rfl
        · rw [hphase]
          rfl
      obtain ⟨x, hx, -⟩ := (hw.agent j).leads key slot hleads
      refine (ht.panicked j key slot hphase ?_).concat _
      by_contra hresult
      exact hkept.frame.result hx hresult hnone
  · by_cases hne : j = i
    · subst hne
      simp only [Function.update_self] at hphase
      exact hgrows.returned key result hphase
    · simp only [Function.update_of_ne hne] at hphase
      exact (ht.returned j key result hphase).concat _

/-- **A follower returns what was computed for its key**, by the computation of a leader, or the error of one
that has panicked; never the result of another key. -/
theorem returned_was_computed {acts : List (ι × Act κ (Outcome V F))} {result : Outcome V F}
    (h : run step (atRest ι κ V F) acts = some w) (hi : w.phase i = .returned key (some result)) :
    Computed acts key result := by
  have htraced : Traced acts w := by
    clear hi
    induction acts using List.reverseRecOn generalizing w with
    | nil =>
      obtain rfl := Option.some.inj h
      exact traced_atRest
    | append_singleton front ia ih =>
      obtain ⟨u, hu, hstep⟩ := run_concat_eq_some.mp h
      obtain ⟨j, a⟩ := ia
      exact traced_concat hu (ih hu) hstep
  exact htraced.returned i key result hi

/-- The leader ends, and the follower looks again. -/
def released : List (ℕ × Act ℕ (Outcome ℕ Empty)) :=
  joined ++ [(0, Act.finish (.ok 5)), (0, .unregister), (0, .settle), (0, .notify), (1, .poll false)]

theorem returned_was_computed_released : ∃ w, run step (atRest ℕ ℕ ℕ Empty) released = some w ∧
    w.phase 1 = .returned 7 (some (.ok 5)) ∧ Computed released 7 (.ok 5) := by
  have hrun : ∃ w, run step (atRest ℕ ℕ ℕ Empty) released = some w ∧
      w.phase 1 = .returned 7 (some (.ok 5)) := ⟨_, rfl, rfl⟩
  obtain ⟨w, hw, hphase⟩ := hrun
  exact ⟨w, hw, hphase, returned_was_computed hw hphase⟩

end SingleFlight
end NestWeaver
