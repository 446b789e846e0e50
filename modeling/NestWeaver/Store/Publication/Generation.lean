import Mathlib.Algebra.Ring.Nat
import Mathlib.Data.Nat.Notation
import Mathlib.Data.Nat.Basic
import Mathlib.Tactic.Common

/-!
# The generation of an index publication

`crates/nestweaver-store/src/db.rs` and `generation.rs`: the generation of the graph is kept in
three places, a live counter, the base that an unfinished publication counts from, and a sidecar
file.  From a base `N` a publication shows `N + 1` while its marker is on disk and `N + 2` once it is
done.

The marker, the sidecar and the graph survive the process; the rest is built again when the store is
opened.  The diagnostic fields of the lease (label, time, revision, waiters) are left out.
-/

set_option linter.all false

namespace NestWeaver
namespace Publication

/-! ## Counters of 64 bits -/

def u64Max : ℕ := 2 ^ 64 - 1

def checkedAdd (a b : ℕ) : Option ℕ := if a + b ≤ u64Max then some (a + b) else none

def saturatingAdd (a b : ℕ) : ℕ := min (a + b) u64Max

lemma checkedAdd_of_le {a b : ℕ} (h : a + b ≤ u64Max) : checkedAdd a b = some (a + b) := if_pos h

lemma checkedAdd_of_lt {a b : ℕ} (h : u64Max < a + b) : checkedAdd a b = none :=
  if_neg (not_le.mpr h)

lemma checkedAdd_one_of_two {a : ℕ} (h : a + 2 ≤ u64Max) : checkedAdd a 1 = some (a + 1) :=
  checkedAdd_of_le (by omega)

/-! ## The store -/

inductive StoreError
  | query (message : String)
  | rankingUnavailable
  deriving DecidableEq, Repr

def exhausted : StoreError := .query "graph generation exhausted during index publication"

def orExhausted (generation : Option ℕ) : Except StoreError ℕ :=
  generation.elim (.error exhausted) .ok

inductive ReservationState
  | unreserved | fresh | recovered
  deriving DecidableEq, Repr

structure GenerationReservation where
  generation : ℕ
  recovered : Bool
  deriving DecidableEq, Repr

structure LeaseState where
  owner : Option ℕ
  reservationOwner : Option ℕ
  nextToken : ℕ
  deriving DecidableEq, Repr

/-- What the owner of a publication holds. -/
structure Lease where
  token : ℕ
  reservation : ReservationState
  deriving DecidableEq, Repr

structure GraphStore (γ : Type) where
  graph : γ
  /-- Whether the file `.index-dirty` exists. -/
  marker : Bool
  /-- The number in the file `.generation`. -/
  sidecar : Option ℕ
  graphGeneration : ℕ
  generationBase : Option ℕ
  leaseState : LeaseState
  deriving DecidableEq, Repr

namespace GraphStore

variable {γ : Type} (s : GraphStore γ) (token : ℕ)

/-! ## The lease -/

def leaseIsUnowned : Bool := s.leaseState.owner.isNone

def validateOwner : Except StoreError Unit :=
  if s.leaseState.owner = some token then .ok ()
  else .error (.query "index publication lease is not owned by this token")

def recordReservationOwner : Except StoreError (GraphStore γ) :=
  if s.leaseState.owner = some token then
    .ok { s with leaseState := { s.leaseState with reservationOwner := some token } }
  else .error (.query "index publication reservation is not owned by this token")

def tryAcquireLease : Except StoreError (Option (GraphStore γ × Lease)) :=
  if s.leaseIsUnowned then
    let token := s.leaseState.nextToken
    match checkedAdd token 1 with
    | none => .error (.query "index publication ownership token exhausted")
    | some nextToken =>
      .ok (some
        ({ s with leaseState := { s.leaseState with owner := some token, nextToken } },
          ⟨token, .unreserved⟩))
  else .ok none

def releaseLease : Except StoreError (GraphStore γ) :=
  if s.leaseState.owner = some token then
    .ok { s with leaseState := { s.leaseState with owner := none, reservationOwner := none } }
  else .error (.query "index publication lease release attempted by a non-owner")

/-! ## The generation of the owner's publication -/

/-- The generation that a publication counts from. -/
def canonical : ℕ := s.generationBase.getD s.graphGeneration

def preflightGeneration : Except StoreError Unit := do
  s.validateOwner token
  let _ ← orExhausted (checkedAdd s.canonical 2)
  return ()

def reserveGeneration : Except StoreError (GraphStore γ × GenerationReservation) := do
  s.validateOwner token
  match s.generationBase with
  | some canonical =>
    let _ ← orExhausted (checkedAdd canonical 2)
    let generation ← orExhausted (checkedAdd canonical 1)
    return (s, ⟨generation, true⟩)
  | none =>
    let canonical := s.graphGeneration
    let _ ← orExhausted (checkedAdd canonical 2)
    let reserved ← orExhausted (checkedAdd canonical 1)
    return ({ s with generationBase := some canonical, graphGeneration := reserved },
      ⟨reserved, false⟩)

/-- The base of an interrupted publication whose successors are unavailable is read again. -/
def rederiveUnavailableBase : Except StoreError (GraphStore γ × Option ℕ) := do
  s.validateOwner token
  match s.generationBase with
  | none => return (s, none)
  | some canonical =>
    if (checkedAdd canonical 2).isSome then return (s, none)
    let rederived := (s.sidecar.filter fun value => (checkedAdd value 2).isSome).getD 0
    return ({ s with
      generationBase := some rederived, graphGeneration := saturatingAdd rederived 1 },
      some rederived)

def cleanGeneration : Except StoreError ℕ := do
  s.validateOwner token
  match s.generationBase with
  | none => .error (.query "index publication generation is not reserved")
  | some canonical => orExhausted (checkedAdd canonical 2)

def publishCleanGeneration : Except StoreError (GraphStore γ) := do
  let clean ← s.cleanGeneration token
  return { s with graphGeneration := clean }

def failCleanGeneration : Except StoreError (GraphStore γ) := do
  s.validateOwner token
  match s.generationBase.bind (checkedAdd · 2) with
  | none => return s
  | some clean =>
    return { s with generationBase := some clean, graphGeneration := saturatingAdd clean 1 }

def completeGeneration : Except StoreError (GraphStore γ) := do
  s.validateOwner token
  return { s with generationBase := none }

def cancelGeneration : Except StoreError (GraphStore γ) := do
  s.validateOwner token
  return { s with generationBase := none, graphGeneration := s.canonical }

/-! ## Files -/

def saveGraphGenerationValue (value : ℕ) : GraphStore γ := { s with sidecar := some value }

def loadFailClosed (canonical : Option ℕ) : GraphStore γ :=
  let canonical := canonical.getD u64Max
  { s with generationBase := some canonical, graphGeneration := saturatingAdd canonical 1 }

def loadGraphGeneration : GraphStore γ :=
  if s.marker then s.loadFailClosed s.sidecar
  else { s with generationBase := none, graphGeneration := s.sidecar.getD s.graphGeneration }

/-- The store as another process opens it. -/
def reopen : GraphStore γ :=
  loadGraphGeneration
    { s with graphGeneration := 0, generationBase := none, leaseState := ⟨none, none, 0⟩ }

/-- A reader probes the lease and the marker, reads the sidecar and probes again.  The store may
change between any two of these. -/
def cleanPublishedGenerationSnapshot (leaseBefore markerBefore read leaseAfter markerAfter :
    GraphStore γ) : Except StoreError ℕ :=
  if !leaseBefore.leaseIsUnowned then .error .rankingUnavailable
  else if markerBefore.marker then .error .rankingUnavailable
  else do
    let generation ← match read.sidecar with
      | some generation => .ok generation
      | none => if read.graphGeneration = 0 then .ok 0 else .error .rankingUnavailable
    if !leaseAfter.leaseIsUnowned || markerAfter.marker then .error .rankingUnavailable
    else return generation

end GraphStore

/-! ## The operations of the lease -/

namespace Lease

variable {γ : Type} (lease : Lease) (s : GraphStore γ)

def reserveGeneration : Except StoreError (GraphStore γ × Lease) := do
  let (s, reserved) ← s.reserveGeneration lease.token
  let s ← s.recordReservationOwner lease.token
  if lease.reservation = .unreserved then
    return (s, { lease with reservation := if reserved.recovered then .recovered else .fresh })
  return (s, lease)

def cancelGeneration : Except StoreError (GraphStore γ) :=
  if lease.reservation = .fresh then s.cancelGeneration lease.token
  else .error (.query "only a fresh index publication owner may cancel its generation")

end Lease

/-! ## What the operations of an owner do -/

namespace GraphStore

variable {γ : Type} {s : GraphStore γ} {token c : ℕ}

lemma validateOwner_of_owner (h : s.leaseState.owner = some token) :
    s.validateOwner token = .ok () := if_pos h

lemma canonical_of_base (h : s.generationBase = some c) : s.canonical = c := by
  rw [canonical, h, Option.getD_some]

lemma canonical_of_none (h : s.generationBase = none) : s.canonical = s.graphGeneration := by
  rw [canonical, h, Option.getD_none]

lemma tryAcquireLease_eq_ok {s' : GraphStore γ} {lease : Lease}
    (h : s.tryAcquireLease = .ok (some (s', lease))) :
    s.leaseState.owner = none ∧ lease.reservation = .unreserved ∧
      ∃ state : LeaseState, state.owner = some lease.token ∧ s' = { s with leaseState := state } := by
  rw [tryAcquireLease] at h
  split_ifs at h with hfree
  · cases htoken : checkedAdd s.leaseState.nextToken 1 with
    | none => simp [htoken] at h
    | some nextToken =>
      simp only [htoken, Except.ok.injEq, Option.some.injEq, Prod.mk.injEq] at h
      obtain ⟨rfl, rfl⟩ := h
      exact ⟨Option.isNone_iff_eq_none.mp hfree, rfl, _, rfl, rfl⟩
  · simp at h

lemma releaseLease_of_owner (h : s.leaseState.owner = some token) :
    s.releaseLease token =
      .ok { s with leaseState := { s.leaseState with owner := none, reservationOwner := none } } :=
  if_pos h

lemma preflightGeneration_of_le (h : s.leaseState.owner = some token)
    (hle : s.canonical + 2 ≤ u64Max) : s.preflightGeneration token = .ok () := by
  rw [preflightGeneration, validateOwner_of_owner h, checkedAdd_of_le hle]
  rfl

lemma preflightGeneration_of_lt (h : s.leaseState.owner = some token)
    (hlt : u64Max < s.canonical + 2) : s.preflightGeneration token = .error exhausted := by
  rw [preflightGeneration, validateOwner_of_owner h, checkedAdd_of_lt hlt]
  rfl

lemma rederiveUnavailableBase_of_available (h : s.leaseState.owner = some token)
    (hle : ∀ c, s.generationBase = some c → c + 2 ≤ u64Max) :
    s.rederiveUnavailableBase token = .ok (s, none) := by
  rw [rederiveUnavailableBase, validateOwner_of_owner h]
  cases hbase : s.generationBase with
  | none => rfl
  | some c =>
    have hsome : (checkedAdd c 2).isSome := by rw [checkedAdd_of_le (hle c hbase)]; rfl
    simp [hsome, bind, Except.bind, pure, Except.pure]

lemma cleanGeneration_of_base (h : s.leaseState.owner = some token)
    (hbase : s.generationBase = some c) (hle : c + 2 ≤ u64Max) :
    s.cleanGeneration token = .ok (c + 2) := by
  rw [cleanGeneration, validateOwner_of_owner h, hbase]
  simp only [checkedAdd_of_le hle]
  rfl

lemma publishCleanGeneration_of_base (h : s.leaseState.owner = some token)
    (hbase : s.generationBase = some c) (hle : c + 2 ≤ u64Max) :
    s.publishCleanGeneration token = .ok { s with graphGeneration := c + 2 } := by
  rw [publishCleanGeneration, cleanGeneration_of_base h hbase hle]
  rfl

lemma failCleanGeneration_of_base (h : s.leaseState.owner = some token)
    (hbase : s.generationBase = some c) (hle : c + 2 ≤ u64Max) :
    s.failCleanGeneration token = .ok { s with
      generationBase := some (c + 2), graphGeneration := saturatingAdd (c + 2) 1 } := by
  rw [failCleanGeneration, validateOwner_of_owner h, hbase]
  simp only [Option.bind_some, checkedAdd_of_le hle]
  rfl

lemma completeGeneration_of_owner (h : s.leaseState.owner = some token) :
    s.completeGeneration token = .ok { s with generationBase := none } := by
  rw [completeGeneration, validateOwner_of_owner h]
  rfl

end GraphStore

namespace Lease

variable {γ : Type} {lease : Lease} {s : GraphStore γ} {c : ℕ}

/-- An owner that finds a base recovers the publication, and the live counter stays. -/
lemma reserveGeneration_of_base (h : s.leaseState.owner = some lease.token)
    (hlease : lease.reservation = .unreserved) (hbase : s.generationBase = some c)
    (hle : c + 2 ≤ u64Max) :
    lease.reserveGeneration s = .ok
      ({ s with leaseState := { s.leaseState with reservationOwner := some lease.token } },
        { lease with reservation := .recovered }) := by
  have hreserve : s.reserveGeneration lease.token = .ok (s, ⟨c + 1, true⟩) := by
    rw [GraphStore.reserveGeneration, GraphStore.validateOwner_of_owner h, hbase]
    simp only [checkedAdd_of_le hle, checkedAdd_one_of_two hle]
    rfl
  rw [reserveGeneration, hreserve]
  simp [bind, Except.bind, pure, Except.pure, GraphStore.recordReservationOwner, h, hlease]

lemma reserveGeneration_of_none (h : s.leaseState.owner = some lease.token)
    (hlease : lease.reservation = .unreserved) (hbase : s.generationBase = none)
    (hle : s.graphGeneration + 2 ≤ u64Max) :
    lease.reserveGeneration s = .ok
      ({ s with
          generationBase := some s.graphGeneration, graphGeneration := s.graphGeneration + 1,
          leaseState := { s.leaseState with reservationOwner := some lease.token } },
        { lease with reservation := .fresh }) := by
  have hreserve : s.reserveGeneration lease.token = .ok
      ({ s with
          generationBase := some s.graphGeneration, graphGeneration := s.graphGeneration + 1 },
        ⟨s.graphGeneration + 1, false⟩) := by
    rw [GraphStore.reserveGeneration, GraphStore.validateOwner_of_owner h, hbase]
    simp only [checkedAdd_of_le hle, checkedAdd_one_of_two hle]
    rfl
  rw [reserveGeneration, hreserve]
  simp [bind, Except.bind, pure, Except.pure, GraphStore.recordReservationOwner, h, hlease]

lemma cancelGeneration_of_fresh (h : s.leaseState.owner = some lease.token)
    (hlease : lease.reservation = .fresh) :
    lease.cancelGeneration s =
      .ok { s with generationBase := none, graphGeneration := s.canonical } := by
  rw [cancelGeneration, if_pos hlease, GraphStore.cancelGeneration,
    GraphStore.validateOwner_of_owner h]
  rfl

lemma cancelGeneration_of_ne (hlease : lease.reservation ≠ .fresh) :
    lease.cancelGeneration s =
      .error (.query "only a fresh index publication owner may cancel its generation") :=
  if_neg hlease

end Lease

end Publication
end NestWeaver
