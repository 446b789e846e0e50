import NestWeaver.Framework.Transition
import NestWeaver.Store.Publication.Generation

/-!
# Runs of publications

An owner of the lease acquires it, checks that the successors of the generation are available, writes
the marker, reserves the dirty generation, changes the graph, saves the clean generation, makes it
live, removes the marker, completes and releases.  Files may fail to change, or change and report a
failure.  The lease may be dropped, and the process may crash, after any step.

In a state that satisfies `Inv` a step has one of the effects that `Effect` lists
(`effect_of_step`), and `Inv` is kept by every step that is `Sound` (`Inv.step`).
-/

set_option linter.all false

namespace NestWeaver
namespace Publication

open Transition

/-! ## Publishers -/

/-- How a change of a file ends. -/
inductive IoOutcome
  | done
  /-- It failed, and the file is as before. -/
  | refused
  /-- The file has changed, but this could not be made durable. -/
  | unconfirmed
  deriving DecidableEq, Repr

def IoOutcome.changed : IoOutcome → Bool
  | .refused => false
  | _ => true

/-- What an owner has done last. -/
inductive Stage
  | acquired | preflighted | established | reserved | persisted
  /-- The clean generation is live. -/
  | published
  | retired | unretired | cancelled
  /-- The publication is complete or withdrawn. -/
  | closed
  /-- A step has failed, and the owner gives up. -/
  | failed
  deriving DecidableEq, Repr

structure Publisher where
  lease : Lease
  stage : Stage
  mutated : Bool
  /-- The canonical generation when the lease was acquired. -/
  canonical : ℕ
  deriving DecidableEq, Repr

structure System (γ : Type) where
  store : GraphStore γ
  publisher : Option Publisher
  deriving DecidableEq, Repr

inductive Action (γ : Type)
  | acquire
  | preflight
  | rederive
  | establishMarker (outcome : IoOutcome)
  | reserveGeneration
  | mutate (graph : γ)
  | saveGeneration (outcome : IoOutcome)
  | publishCleanGeneration
  | retireMarker (outcome : IoOutcome)
  | failCleanGeneration
  | completeGeneration
  | cancelGeneration
  | withdrawMarker (outcome : IoOutcome)
  | release
  | drop
  | crash
  deriving DecidableEq, Repr

variable {γ : Type}

/-! ## Steps -/

namespace System

/-- A step of an owner that has come to a stage.  If it fails nothing changes. -/
def attempt (sys : System γ) (stage next : Stage)
    (operation : GraphStore γ → Lease → Except StoreError (GraphStore γ × Lease)) :
    Option (System γ) :=
  match sys.publisher with
  | none => none
  | some p =>
    if p.stage = stage then
      match operation sys.store p.lease with
      | .ok (store, lease) => some ⟨store, some { p with lease, stage := next }⟩
      | .error _ => some ⟨sys.store, some { p with stage := .failed }⟩
    else none

/-- A step of an owner that changes a file. -/
def attemptIo (sys : System γ) (stage next failure : Stage)
    (change : GraphStore γ → Publisher → Except StoreError (GraphStore γ)) (outcome : IoOutcome) :
    Option (System γ) :=
  match sys.publisher with
  | none => none
  | some p =>
    if p.stage = stage then
      match change sys.store p with
      | .ok store =>
        some ⟨if outcome.changed then store else sys.store,
          some { p with stage := if outcome = .done then next else failure }⟩
      | .error _ => some ⟨sys.store, some { p with stage := .failed }⟩
    else none

def surrender (sys : System γ) : Option (System γ) :=
  match sys.publisher with
  | none => none
  | some p =>
    match sys.store.releaseLease p.lease.token with
    | .ok store => some ⟨store, none⟩
    | .error _ => some ⟨sys.store, none⟩

def step (sys : System γ) : Action γ → Option (System γ)
  | .acquire =>
    match sys.publisher, sys.store.tryAcquireLease with
    | none, .ok (some (store, lease)) =>
      some ⟨store, some ⟨lease, .acquired, false, sys.store.canonical⟩⟩
    | _, _ => none
  | .preflight => sys.attempt .acquired .preflighted fun store lease => do
      store.preflightGeneration lease.token
      return (store, lease)
  | .rederive => sys.attempt .acquired .acquired fun store lease => do
      let (store, _) ← store.rederiveUnavailableBase lease.token
      return (store, lease)
  | .establishMarker outcome => sys.attemptIo .preflighted .established .failed
      (fun store _ => .ok { store with marker := true }) outcome
  | .reserveGeneration => sys.attempt .established .reserved fun store lease =>
      lease.reserveGeneration store
  | .mutate graph =>
    match sys.publisher with
    | none => none
    | some p =>
      if p.stage = .reserved then
        some ⟨{ sys.store with graph }, some { p with mutated := true }⟩
      else none
  | .saveGeneration outcome => sys.attemptIo .reserved .persisted .failed
      (fun store p => do
        let clean ← store.cleanGeneration p.lease.token
        return store.saveGraphGenerationValue clean) outcome
  | .publishCleanGeneration => sys.attempt .persisted .published fun store lease => do
      let store ← store.publishCleanGeneration lease.token
      return (store, lease)
  | .retireMarker outcome => sys.attemptIo .published .retired .unretired
      (fun store _ => .ok { store with marker := false }) outcome
  | .failCleanGeneration => sys.attempt .unretired .failed fun store lease => do
      let store ← store.failCleanGeneration lease.token
      return (store, lease)
  | .completeGeneration => sys.attempt .retired .closed fun store lease => do
      let store ← store.completeGeneration lease.token
      return (store, lease)
  | .cancelGeneration =>
    match sys.publisher with
    | none => none
    | some p =>
      if p.mutated then none
      else sys.attempt .reserved .cancelled fun store lease => do
        let store ← lease.cancelGeneration store
        return (store, lease)
  | .withdrawMarker outcome => sys.attemptIo .cancelled .closed .failed
      (fun store _ => .ok { store with marker := false }) outcome
  | .release =>
    match sys.publisher with
    | none => none
    | some p => if p.stage = .closed then sys.surrender else none
  | .drop => sys.surrender
  | .crash => some ⟨sys.store.reopen, none⟩

end System

/-- A store as it is opened from what a previous process left on disk. -/
def opened (graph : γ) (marker : Bool) (generation : ℕ) : System γ :=
  ⟨GraphStore.reopen ⟨graph, marker, some generation, 0, none, ⟨none, none, 0⟩⟩, none⟩

/-- The owner is between the removal of the marker and the operation that accounts for it. -/
def System.InRetirement (sys : System γ) : Prop :=
  ∃ p, sys.publisher = some p ∧ (p.stage = .retired ∨ p.stage = .unretired)

/-- The lease is not dropped while the marker is being retired, and no base is derived again whose
successors are unavailable. -/
def Sound (sys : System γ) : Action γ → Prop
  | .drop => ¬ sys.InRetirement
  | .rederive => ∀ c, sys.store.generationBase = some c → c + 2 ≤ u64Max
  | _ => True

/-! ## The invariant -/

/-- What holds of the store at a stage of its owner. -/
def Publisher.Inv (store : GraphStore γ) (p : Publisher) : Prop :=
  match p.stage with
  | .acquired => p.lease.reservation = .unreserved ∧ store.canonical = p.canonical
  | .preflighted => p.lease.reservation = .unreserved ∧ store.canonical = p.canonical ∧
      p.canonical + 2 ≤ u64Max
  | .established => p.lease.reservation = .unreserved ∧ store.canonical = p.canonical ∧
      p.canonical + 2 ≤ u64Max ∧ store.marker = true
  | .reserved => store.generationBase = some p.canonical ∧ p.canonical + 2 ≤ u64Max ∧
      store.marker = true ∧ (p.lease.reservation = .fresh → store.sidecar = some p.canonical)
  | .persisted => store.generationBase = some p.canonical ∧ p.canonical + 2 ≤ u64Max ∧
      store.marker = true ∧ store.sidecar = some (p.canonical + 2)
  | .published => store.generationBase = some p.canonical ∧ p.canonical + 2 ≤ u64Max ∧
      store.marker = true ∧ store.sidecar = some (p.canonical + 2) ∧
      store.graphGeneration = p.canonical + 2
  | .retired => store.generationBase = some p.canonical ∧ p.canonical + 2 ≤ u64Max ∧
      store.marker = false ∧ store.sidecar = some (p.canonical + 2) ∧
      store.graphGeneration = p.canonical + 2
  | .unretired => store.generationBase = some p.canonical ∧ p.canonical + 2 ≤ u64Max ∧
      store.sidecar = some (p.canonical + 2) ∧ store.graphGeneration = p.canonical + 2
  | .cancelled => store.generationBase = none ∧ store.marker = true
  | .closed => store.generationBase = none
  | .failed => True

structure System.Inv (sys : System γ) : Prop where
  owner : sys.store.leaseState.owner = sys.publisher.map (·.lease.token)
  sidecar_le : ∀ g, sys.store.sidecar = some g → g ≤ u64Max
  of_none : sys.store.generationBase = none → sys.store.sidecar = some sys.store.graphGeneration
  of_base : ∀ c, sys.store.generationBase = some c →
    sys.store.sidecar = some c ∨ sys.store.sidecar = some (c + 2)
  of_clean : sys.store.marker = false → ¬ sys.InRetirement →
    sys.store.sidecar = some sys.store.canonical ∧
      sys.store.canonical ≤ sys.store.graphGeneration ∧
      sys.store.graphGeneration ≤ sys.store.canonical + 1
  publisher : ∀ p, sys.publisher = some p → p.Inv sys.store

/-! ## What a step does -/

/-- The effect of a sound step in a state that satisfies the invariant. -/
inductive Effect : System γ → Action γ → System γ → Prop
  | acquire {s : GraphStore γ} {state : LeaseState} {lease : Lease}
      (hlease : lease.reservation = .unreserved) (howner : state.owner = some lease.token) :
      Effect ⟨s, none⟩ .acquire
        ⟨{ s with leaseState := state }, some ⟨lease, .acquired, false, s.canonical⟩⟩
  | preflight {s : GraphStore γ} {p : Publisher} (hstage : p.stage = .acquired)
      (hle : p.canonical + 2 ≤ u64Max) :
      Effect ⟨s, some p⟩ .preflight ⟨s, some { p with stage := .preflighted }⟩
  | rederive {s : GraphStore γ} {p : Publisher} (hstage : p.stage = .acquired) :
      Effect ⟨s, some p⟩ .rederive ⟨s, some p⟩
  | establish {s : GraphStore γ} {p : Publisher} {outcome : IoOutcome} {next : Stage}
      (hstage : p.stage = .preflighted) (hnext : next = .established ∨ next = .failed) :
      Effect ⟨s, some p⟩ (.establishMarker outcome)
        ⟨{ s with marker := true }, some { p with stage := next }⟩
  | reserveRecovered {s : GraphStore γ} {p : Publisher} (hstage : p.stage = .established)
      (hbase : s.generationBase = some p.canonical) :
      Effect ⟨s, some p⟩ .reserveGeneration
        ⟨{ s with leaseState := { s.leaseState with reservationOwner := some p.lease.token } },
          some { p with lease := { p.lease with reservation := .recovered }, stage := .reserved }⟩
  | reserveFresh {s : GraphStore γ} {p : Publisher} (hstage : p.stage = .established)
      (hbase : s.generationBase = none) (hlive : s.graphGeneration = p.canonical) :
      Effect ⟨s, some p⟩ .reserveGeneration
        ⟨{ s with
            generationBase := some p.canonical, graphGeneration := p.canonical + 1,
            leaseState := { s.leaseState with reservationOwner := some p.lease.token } },
          some { p with lease := { p.lease with reservation := .fresh }, stage := .reserved }⟩
  | mutate {s : GraphStore γ} {p : Publisher} {graph : γ} (hstage : p.stage = .reserved) :
      Effect ⟨s, some p⟩ (.mutate graph) ⟨{ s with graph }, some { p with mutated := true }⟩
  | save {s : GraphStore γ} {p : Publisher} {outcome : IoOutcome} {next : Stage}
      (hstage : p.stage = .reserved) (hnext : next = .persisted ∨ next = .failed) :
      Effect ⟨s, some p⟩ (.saveGeneration outcome)
        ⟨{ s with sidecar := some (p.canonical + 2) }, some { p with stage := next }⟩
  | publish {s : GraphStore γ} {p : Publisher} (hstage : p.stage = .persisted) :
      Effect ⟨s, some p⟩ .publishCleanGeneration
        ⟨{ s with graphGeneration := p.canonical + 2 }, some { p with stage := .published }⟩
  | retire {s : GraphStore γ} {p : Publisher} {outcome : IoOutcome} {next : Stage}
      (hstage : p.stage = .published) (hnext : next = .retired ∨ next = .unretired) :
      Effect ⟨s, some p⟩ (.retireMarker outcome)
        ⟨{ s with marker := false }, some { p with stage := next }⟩
  | keep {s : GraphStore γ} {p : Publisher} (hstage : p.stage = .published) :
      Effect ⟨s, some p⟩ (.retireMarker .refused) ⟨s, some { p with stage := .unretired }⟩
  | failClean {s : GraphStore γ} {p : Publisher} (hstage : p.stage = .unretired) :
      Effect ⟨s, some p⟩ .failCleanGeneration
        ⟨{ s with
            generationBase := some (p.canonical + 2),
            graphGeneration := saturatingAdd (p.canonical + 2) 1 },
          some { p with stage := .failed }⟩
  | complete {s : GraphStore γ} {p : Publisher} (hstage : p.stage = .retired) :
      Effect ⟨s, some p⟩ .completeGeneration
        ⟨{ s with generationBase := none }, some { p with stage := .closed }⟩
  | cancel {s : GraphStore γ} {p : Publisher} (hstage : p.stage = .reserved)
      (hmutated : p.mutated = false) (hfresh : p.lease.reservation = .fresh) :
      Effect ⟨s, some p⟩ .cancelGeneration
        ⟨{ s with generationBase := none, graphGeneration := p.canonical },
          some { p with stage := .cancelled }⟩
  | withdraw {s : GraphStore γ} {p : Publisher} {outcome : IoOutcome} {next : Stage}
      (hstage : p.stage = .cancelled) (hnext : next = .closed ∨ next = .failed) :
      Effect ⟨s, some p⟩ (.withdrawMarker outcome)
        ⟨{ s with marker := false }, some { p with stage := next }⟩
  | fail {s : GraphStore γ} {p : Publisher} {a : Action γ}
      (hstage : p.stage = .acquired ∧ a = .preflight ∨
        p.stage = .preflighted ∧ a = .establishMarker .refused ∨
        p.stage = .reserved ∧ (a = .saveGeneration .refused ∨ a = .cancelGeneration) ∨
        p.stage = .cancelled ∧ a = .withdrawMarker .refused) :
      Effect ⟨s, some p⟩ a ⟨s, some { p with stage := .failed }⟩
  | surrender {s : GraphStore γ} {p : Publisher} {a : Action γ}
      (ha : a = .release ∧ p.stage = .closed ∨ a = .drop)
      (hstage : p.stage ≠ .retired ∧ p.stage ≠ .unretired) :
      Effect ⟨s, some p⟩ a
        ⟨{ s with leaseState := { s.leaseState with owner := none, reservationOwner := none } },
          none⟩
  | crash {sys : System γ} : Effect sys .crash ⟨sys.store.reopen, none⟩

namespace System

variable {s : GraphStore γ} {p : Publisher} {sys' : System γ} {stage next failure : Stage}
  {operation : GraphStore γ → Lease → Except StoreError (GraphStore γ × Lease)}
  {change : GraphStore γ → Publisher → Except StoreError (GraphStore γ)} {outcome : IoOutcome}

lemma attempt_some (h : attempt ⟨s, some p⟩ stage next operation = some sys') :
    p.stage = stage ∧
      ((∃ store lease, operation s p.lease = .ok (store, lease) ∧
          sys' = ⟨store, some { p with lease, stage := next }⟩) ∨
        (∃ e, operation s p.lease = .error e ∧
          sys' = ⟨s, some { p with stage := .failed }⟩)) := by
  by_cases hstage : p.stage = stage
  · refine ⟨hstage, ?_⟩
    cases hop : operation s p.lease with
    | error e =>
      simp only [attempt, hstage, if_true, hop, Option.some.injEq] at h
      exact .inr ⟨e, rfl, h.symm⟩
    | ok r =>
      obtain ⟨store, lease⟩ := r
      simp only [attempt, hstage, if_true, hop, Option.some.injEq] at h
      exact .inl ⟨store, lease, rfl, h.symm⟩
  · simp [attempt, hstage] at h

/-- A change of a file that can fail only as the file does. -/
lemma attemptIo_some {store : GraphStore γ} (hchange : change s p = .ok store)
    (h : attemptIo ⟨s, some p⟩ stage next failure change outcome = some sys') :
    p.stage = stage ∧
      ((∃ last, (last = next ∨ last = failure) ∧ sys' = ⟨store, some { p with stage := last }⟩) ∨
        (outcome = .refused ∧ sys' = ⟨s, some { p with stage := failure }⟩)) := by
  by_cases hstage : p.stage = stage
  · refine ⟨hstage, ?_⟩
    simp only [attemptIo, hstage, if_true, hchange, Option.some.injEq] at h
    cases outcome with
    | done => exact .inl ⟨next, .inl rfl, h.symm⟩
    | refused => exact .inr ⟨rfl, h.symm⟩
    | unconfirmed => exact .inl ⟨failure, .inr rfl, h.symm⟩
  · simp [attemptIo, hstage] at h

lemma surrender_some (howner : s.leaseState.owner = some p.lease.token)
    (h : surrender ⟨s, some p⟩ = some sys') :
    sys' = ⟨{ s with leaseState := { s.leaseState with owner := none, reservationOwner := none } },
      none⟩ := by
  simp only [surrender, GraphStore.releaseLease_of_owner howner, Option.some.injEq] at h
  exact h.symm

end System

/-- **The effects of the steps.** -/
theorem effect_of_step {sys sys' : System γ} {a : Action γ} (hinv : sys.Inv) (hsound : Sound sys a)
    (h : sys.step a = some sys') : Effect sys a sys' := by
  obtain ⟨s, publisher⟩ := sys
  cases publisher with
  | none =>
    cases a with
    | acquire =>
      cases hacquire : s.tryAcquireLease with
      | error e => simp [System.step, hacquire] at h
      | ok r =>
        cases r with
        | none => simp [System.step, hacquire] at h
        | some r =>
          obtain ⟨store, lease⟩ := r
          obtain ⟨-, hlease, state, howner, rfl⟩ := GraphStore.tryAcquireLease_eq_ok hacquire
          simp only [System.step, hacquire, Option.some.injEq] at h
          subst h
          exact .acquire hlease howner
    | crash =>
      obtain rfl := Option.some.inj h
      exact .crash
    | _ => exact absurd h (by simp [System.step, System.attempt, System.attemptIo, System.surrender])
  | some p =>
    have howner : s.leaseState.owner = some p.lease.token := hinv.owner
    have hp : p.Inv s := hinv.publisher p rfl
    cases a with
    | acquire => simp [System.step] at h
    | crash =>
      obtain rfl := Option.some.inj h
      exact .crash
    | preflight =>
      rw [System.step] at h
      obtain ⟨hstage, hres⟩ := System.attempt_some h
      simp only [Publisher.Inv, hstage] at hp
      obtain ⟨hlease, hcanonical⟩ := hp
      by_cases hle : s.canonical + 2 ≤ u64Max
      · simp only [GraphStore.preflightGeneration_of_le howner hle] at hres
        obtain ⟨_, _, hok, rfl⟩ | ⟨e, herr, -⟩ := hres
        · cases hok
          exact .preflight hstage (by omega)
        · cases herr
      · simp only [GraphStore.preflightGeneration_of_lt howner (not_le.mp hle)] at hres
        obtain ⟨_, _, hok, -⟩ | ⟨e, -, rfl⟩ := hres
        · cases hok
        · exact .fail (by simp [hstage])
    | rederive =>
      rw [System.step] at h
      obtain ⟨hstage, hres⟩ := System.attempt_some h
      simp only [GraphStore.rederiveUnavailableBase_of_available howner hsound] at hres
      obtain ⟨_, _, hok, rfl⟩ | ⟨e, herr, -⟩ := hres
      · cases hok
        obtain ⟨lease, stage, mutated, canonical⟩ := p
        obtain rfl : stage = .acquired := hstage
        exact .rederive rfl
      · cases herr
    | establishMarker outcome =>
      rw [System.step] at h
      obtain ⟨hstage, ⟨last, hlast, rfl⟩ | ⟨rfl, rfl⟩⟩ := System.attemptIo_some rfl h
      · exact .establish hstage hlast
      · exact .fail (by simp [hstage])
    | reserveGeneration =>
      rw [System.step] at h
      obtain ⟨hstage, hres⟩ := System.attempt_some h
      simp only [Publisher.Inv, hstage] at hp
      obtain ⟨hlease, hcanonical, hle, hmarker⟩ := hp
      cases hbase : s.generationBase with
      | none =>
        have hlive := (GraphStore.canonical_of_none hbase).symm.trans hcanonical
        simp only [Lease.reserveGeneration_of_none howner hlease hbase (by omega)] at hres
        obtain ⟨_, _, hok, rfl⟩ | ⟨e, herr, -⟩ := hres
        · cases hok
          rw [hlive]
          exact .reserveFresh hstage hbase hlive
        · cases herr
      | some c =>
        obtain rfl : c = p.canonical := (GraphStore.canonical_of_base hbase).symm.trans hcanonical
        simp only [Lease.reserveGeneration_of_base howner hlease hbase hle] at hres
        obtain ⟨_, _, hok, rfl⟩ | ⟨e, herr, -⟩ := hres
        · cases hok
          exact .reserveRecovered hstage hbase
        · cases herr
    | mutate graph =>
      by_cases hstage : p.stage = .reserved
      · simp only [System.step, if_pos hstage, Option.some.injEq] at h
        subst h
        exact .mutate hstage
      · simp [System.step, hstage] at h
    | saveGeneration outcome =>
      by_cases hstage : p.stage = .reserved
      · simp only [Publisher.Inv, hstage] at hp
        obtain ⟨hbase, hle, -⟩ := hp
        have hchange : (do
            let clean ← s.cleanGeneration p.lease.token
            return s.saveGraphGenerationValue clean : Except StoreError (GraphStore γ)) =
            .ok { s with sidecar := some (p.canonical + 2) } := by
          rw [GraphStore.cleanGeneration_of_base howner hbase hle]
          rfl
        rw [System.step] at h
        obtain ⟨-, ⟨last, hlast, rfl⟩ | ⟨rfl, rfl⟩⟩ := System.attemptIo_some hchange h
        · exact .save hstage hlast
        · exact .fail (by simp [hstage])
      · simp [System.step, System.attemptIo, hstage] at h
    | publishCleanGeneration =>
      rw [System.step] at h
      obtain ⟨hstage, hres⟩ := System.attempt_some h
      simp only [Publisher.Inv, hstage] at hp
      obtain ⟨hbase, hle, -⟩ := hp
      simp only [GraphStore.publishCleanGeneration_of_base howner hbase hle] at hres
      obtain ⟨_, _, hok, rfl⟩ | ⟨e, herr, -⟩ := hres
      · cases hok
        exact .publish hstage
      · cases herr
    | retireMarker outcome =>
      rw [System.step] at h
      obtain ⟨hstage, ⟨last, hlast, rfl⟩ | ⟨rfl, rfl⟩⟩ := System.attemptIo_some rfl h
      · exact .retire hstage hlast
      · exact .keep hstage
    | failCleanGeneration =>
      rw [System.step] at h
      obtain ⟨hstage, hres⟩ := System.attempt_some h
      simp only [Publisher.Inv, hstage] at hp
      obtain ⟨hbase, hle, -⟩ := hp
      simp only [GraphStore.failCleanGeneration_of_base howner hbase hle] at hres
      obtain ⟨_, _, hok, rfl⟩ | ⟨e, herr, -⟩ := hres
      · cases hok
        exact .failClean hstage
      · cases herr
    | completeGeneration =>
      rw [System.step] at h
      obtain ⟨hstage, hres⟩ := System.attempt_some h
      simp only [GraphStore.completeGeneration_of_owner howner] at hres
      obtain ⟨_, _, hok, rfl⟩ | ⟨e, herr, -⟩ := hres
      · cases hok
        exact .complete hstage
      · cases herr
    | cancelGeneration =>
      by_cases hmutated : p.mutated = false
      · simp only [System.step, hmutated, Bool.false_eq_true, if_false] at h
        obtain ⟨hstage, hres⟩ := System.attempt_some h
        simp only [Publisher.Inv, hstage] at hp
        obtain ⟨hbase, -⟩ := hp
        by_cases hfresh : p.lease.reservation = .fresh
        · simp only [Lease.cancelGeneration_of_fresh howner hfresh,
            GraphStore.canonical_of_base hbase] at hres
          obtain ⟨_, _, hok, rfl⟩ | ⟨e, herr, -⟩ := hres
          · cases hok
            exact .cancel hstage hmutated hfresh
          · cases herr
        · simp only [Lease.cancelGeneration_of_ne hfresh] at hres
          obtain ⟨_, _, hok, -⟩ | ⟨e, -, rfl⟩ := hres
          · cases hok
          · exact .fail (by simp [hstage])
      · simp [System.step, hmutated] at h
    | withdrawMarker outcome =>
      rw [System.step] at h
      obtain ⟨hstage, ⟨last, hlast, rfl⟩ | ⟨rfl, rfl⟩⟩ := System.attemptIo_some rfl h
      · exact .withdraw hstage hlast
      · exact .fail (by simp [hstage])
    | release =>
      by_cases hstage : p.stage = .closed
      · simp only [System.step, hstage, if_true] at h
        obtain rfl := System.surrender_some howner h
        exact .surrender (.inl ⟨rfl, hstage⟩) (by simp [hstage])
      · simp [System.step, hstage] at h
    | drop =>
      obtain rfl := System.surrender_some howner h
      have hout : ¬ (p.stage = .retired ∨ p.stage = .unretired) :=
        fun hin => hsound ⟨p, rfl, hin⟩
      exact .surrender (.inr rfl) (not_or.mp hout)

/-! ## The invariant is kept -/

@[simp]
lemma inRetirement_none {s : GraphStore γ} : ¬ System.InRetirement ⟨s, none⟩ := by
  simp [System.InRetirement]

@[simp]
lemma inRetirement_some {s : GraphStore γ} {p : Publisher} :
    System.InRetirement ⟨s, some p⟩ ↔ p.stage = .retired ∨ p.stage = .unretired := by
  simp [System.InRetirement]

lemma reopen_of_marker {s : GraphStore γ} {g : ℕ} (hmarker : s.marker = true)
    (hsidecar : s.sidecar = some g) :
    s.reopen = { s with
      generationBase := some g, graphGeneration := saturatingAdd g 1,
      leaseState := ⟨none, none, 0⟩ } := by
  simp [GraphStore.reopen, GraphStore.loadGraphGeneration, GraphStore.loadFailClosed, hmarker,
    hsidecar]

lemma reopen_of_clean {s : GraphStore γ} {g : ℕ} (hmarker : s.marker = false)
    (hsidecar : s.sidecar = some g) :
    s.reopen = { s with
      generationBase := none, graphGeneration := g, leaseState := ⟨none, none, 0⟩ } := by
  simp [GraphStore.reopen, GraphStore.loadGraphGeneration, hmarker, hsidecar]

lemma System.Inv.exists_sidecar {sys : System γ} (hinv : sys.Inv) :
    ∃ g, sys.store.sidecar = some g ∧ g ≤ u64Max := by
  have hsome : ∃ g, sys.store.sidecar = some g := by
    cases hbase : sys.store.generationBase with
    | none => exact ⟨_, hinv.of_none hbase⟩
    | some c =>
      obtain h | h := hinv.of_base c hbase
      · exact ⟨_, h⟩
      · exact ⟨_, h⟩
  obtain ⟨g, hg⟩ := hsome
  exact ⟨g, hg, hinv.sidecar_le g hg⟩

/-- A store that is opened again satisfies the invariant, whatever is on disk. -/
lemma inv_reopen {s : GraphStore γ} {g : ℕ} (hsidecar : s.sidecar = some g) (hle : g ≤ u64Max) :
    System.Inv ⟨s.reopen, none⟩ := by
  by_cases hmarker : s.marker = true
  · rw [reopen_of_marker hmarker hsidecar]
    exact {
      owner := rfl
      sidecar_le := by simpa [hsidecar] using hle
      of_none := by simp
      of_base := by simp [hsidecar]
      of_clean := by simp [hmarker]
      publisher := by simp }
  · have hmarker : s.marker = false := by simpa using hmarker
    rw [reopen_of_clean hmarker hsidecar]
    exact {
      owner := rfl
      sidecar_le := by simpa [hsidecar] using hle
      of_none := by simp [hsidecar]
      of_base := by simp
      of_clean := by simp [GraphStore.canonical, hsidecar]
      publisher := by simp }

lemma inv_opened {graph : γ} {marker : Bool} {generation : ℕ} (hle : generation ≤ u64Max) :
    (opened graph marker generation).Inv :=
  inv_reopen rfl hle

section Kept

variable {sys sys' : System γ} {a : Action γ} (hinv : sys.Inv) (h : Effect sys a sys')
include hinv h

lemma Effect.owner_eq : sys'.store.leaseState.owner = sys'.publisher.map (·.lease.token) := by
  have howner := hinv.owner
  cases h with
  | acquire hlease howner' => exact howner'
  | crash =>
    obtain ⟨g, hg, hle⟩ := hinv.exists_sidecar
    exact (inv_reopen hg hle).owner
  | surrender ha hstage => rfl
  | _ => exact howner

lemma Effect.sidecar_le (g : ℕ) (hg : sys'.store.sidecar = some g) : g ≤ u64Max := by
  cases h with
  | crash =>
    obtain ⟨g, hg', hle⟩ := hinv.exists_sidecar
    exact (inv_reopen hg' hle).sidecar_le _ hg
  | save hstage hnext =>
    have hp := hinv.publisher _ rfl
    simp only [Publisher.Inv, hstage] at hp
    obtain rfl := Option.some.inj hg
    exact hp.2.1
  | _ => exact hinv.sidecar_le g hg

lemma Effect.of_none (hbase : sys'.store.generationBase = none) :
    sys'.store.sidecar = some sys'.store.graphGeneration := by
  cases h with
  | crash =>
    obtain ⟨g, hg, hle⟩ := hinv.exists_sidecar
    exact (inv_reopen hg hle).of_none hbase
  | reserveFresh hstage hnone hlive => cases hbase
  | failClean hstage => cases hbase
  | save hstage hnext =>
    have hp := hinv.publisher _ rfl
    simp only [Publisher.Inv, hstage] at hp
    exact absurd (hp.1.symm.trans hbase) (by simp)
  | publish hstage =>
    have hp := hinv.publisher _ rfl
    simp only [Publisher.Inv, hstage] at hp
    exact absurd (hp.1.symm.trans hbase) (by simp)
  | complete hstage =>
    -- the clean generation is on disk and live
    have hp := hinv.publisher _ rfl
    simp only [Publisher.Inv, hstage] at hp
    obtain ⟨-, -, -, hsidecar, hlive⟩ := hp
    exact hsidecar.trans (congrArg some hlive.symm)
  | cancel hstage hmutated hfresh =>
    -- a fresh owner has not saved yet
    have hp := hinv.publisher _ rfl
    simp only [Publisher.Inv, hstage] at hp
    exact hp.2.2.2 hfresh
  | _ => exact hinv.of_none hbase

lemma Effect.of_base (c : ℕ) (hbase : sys'.store.generationBase = some c) :
    sys'.store.sidecar = some c ∨ sys'.store.sidecar = some (c + 2) := by
  cases h with
  | crash =>
    obtain ⟨g, hg, hle⟩ := hinv.exists_sidecar
    exact (inv_reopen hg hle).of_base c hbase
  | reserveFresh hstage hnone hlive =>
    obtain rfl := Option.some.inj hbase
    rw [← hlive]
    exact .inl (hinv.of_none hnone)
  | failClean hstage =>
    have hp := hinv.publisher _ rfl
    simp only [Publisher.Inv, hstage] at hp
    obtain rfl := Option.some.inj hbase
    exact .inl hp.2.2.1
  | save hstage hnext =>
    have hp := hinv.publisher _ rfl
    simp only [Publisher.Inv, hstage] at hp
    obtain rfl : _ = c := Option.some.inj (hp.1.symm.trans hbase)
    exact .inr rfl
  | complete hstage => cases hbase
  | cancel hstage hmutated hfresh => cases hbase
  | _ => exact hinv.of_base c hbase

lemma Effect.of_clean (hmarker : sys'.store.marker = false) (hout : ¬ sys'.InRetirement) :
    sys'.store.sidecar = some sys'.store.canonical ∧
      sys'.store.canonical ≤ sys'.store.graphGeneration ∧
      sys'.store.graphGeneration ≤ sys'.store.canonical + 1 := by
  cases h with
  | crash =>
    obtain ⟨g, hg, hle⟩ := hinv.exists_sidecar
    exact (inv_reopen hg hle).of_clean hmarker hout
  | failClean hstage =>
    -- the clean generation, which readers may have seen, is the new base
    have hp := hinv.publisher _ rfl
    simp only [Publisher.Inv, hstage] at hp
    simp only [GraphStore.canonical, Option.getD_some, saturatingAdd]
    exact ⟨hp.2.2.1, by omega, by omega⟩
  | complete hstage =>
    have hp := hinv.publisher _ rfl
    simp only [Publisher.Inv, hstage] at hp
    simp only [GraphStore.canonical, Option.getD_none]
    exact ⟨by rw [hp.2.2.2.1, hp.2.2.2.2], le_rfl, by omega⟩
  | withdraw hstage hnext =>
    -- without a base the live generation is the one on disk
    have hp := hinv.publisher _ rfl
    simp only [Publisher.Inv, hstage] at hp
    have hcanonical := GraphStore.canonical_of_none hp.1
    have hsidecar := hinv.of_none hp.1
    rw [← hcanonical] at hsidecar
    exact ⟨hsidecar, Nat.le_of_eq hcanonical, Nat.le_succ_of_le (Nat.le_of_eq hcanonical.symm)⟩
  | _ =>
    have hp := hinv.publisher
    have hclean := hinv.of_clean
    grind -ring -linarith -ac [Publisher.Inv, inRetirement_some, inRetirement_none, GraphStore.canonical]

lemma Effect.publisherInv (p : Publisher) (hp' : sys'.publisher = some p) : p.Inv sys'.store := by
  cases h with
  | crash => cases hp'
  | surrender ha hstage => cases hp'
  | acquire hlease howner =>
    obtain rfl := Option.some.inj hp'
    exact ⟨hlease, rfl⟩
  | reserveFresh hstage hnone hlive =>
    have hp := hinv.publisher _ rfl
    have hsidecar := hinv.of_none hnone
    simp only [Publisher.Inv, hstage] at hp
    obtain rfl := Option.some.inj hp'
    rw [hlive] at hsidecar
    exact ⟨rfl, hp.2.2.1, hp.2.2.2, fun _ => hsidecar⟩
  | _ =>
    have hp := hinv.publisher _ rfl
    grind -ring -linarith -ac [Publisher.Inv, GraphStore.canonical]

/-- **The invariant is kept by every sound step.** -/
theorem System.Inv.effect : sys'.Inv where
  owner := h.owner_eq hinv
  sidecar_le := h.sidecar_le hinv
  of_none := h.of_none hinv
  of_base := h.of_base hinv
  of_clean := h.of_clean hinv
  publisher := h.publisherInv hinv

end Kept

end Publication
end NestWeaver
