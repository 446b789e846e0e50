import Mathlib.Logic.Function.Basic
import NestWeaver.Framework.Load
import NestWeaver.Store.Publication.Runs

/-!
# The graph caches

`crates/nestweaver-store/src/traverse.rs`: the impact snapshot and the symbol names are loaded from
the database in many reads and kept with the generation they were loaded at.  A reader checks the
marker, the live generation and the cache under the publication barrier, loads outside of it, and
checks again under the barrier before it stores or serves what it has loaded.

The owner of a publication holds the barrier while it writes the marker and reserves, while it makes
the clean generation live, removes the marker and completes, and while it withdraws a publication.
When the barrier is released the caches are emptied.
-/

set_option linter.all false

namespace NestWeaver
namespace Publication

variable {γ ρ σ ι : Type}

/-! ## The barrier -/

def System.inBarrier (sys : System γ) : Bool :=
  match sys.publisher with
  | none => false
  | some p => match p.stage with
    | .established | .published | .retired | .unretired | .cancelled => true
    | _ => false

/-- The actions that are taken under the barrier. -/
def Action.underBarrier : Action γ → Bool
  | .establishMarker _ | .reserveGeneration | .publishCleanGeneration | .retireMarker _
  | .failCleanGeneration | .completeGeneration | .cancelGeneration | .withdrawMarker _ => true
  | _ => false

/-- What is done under the barrier runs to its end, and a publication counts from a base whose
successors are available. -/
def Permitted (sys : System γ) : Action γ → Bool
  | .drop => !sys.inBarrier
  | .rederive => sys.store.generationBase.all (· + 2 ≤ u64Max)
  | _ => true

/-! ## The checks of the readers -/

inductive ImpactCheck (ρ : Type)
  | dirty
  | hit (snapshot : ρ)
  | miss (generation : ℕ)
  deriving DecidableEq, Repr

/-- `cached_impact_snapshot_with_loader` before it loads. -/
def checkImpactSnapshot (store : GraphStore γ) (cache : Option (ℕ × ρ)) : ImpactCheck ρ :=
  let generation := store.graphGeneration
  if store.marker then .dirty
  else match cache.filter (·.1 = generation) with
    | some (_, snapshot) => .hit snapshot
    | none => .miss generation

/-- Whether the graph is still of the clean generation that a query began at. -/
def isCurrent (store : GraphStore γ) (queryGeneration : ℕ) : Bool :=
  !(store.marker || store.graphGeneration != queryGeneration)

/-- `cached_impact_snapshot_with_loader` after it has loaded: what it serves, and the cache. -/
def publishImpactSnapshot (store : GraphStore γ) (cache : Option (ℕ × ρ)) (queryGeneration : ℕ)
    (candidate : ρ) : Option ρ × Option (ℕ × ρ) :=
  if isCurrent store queryGeneration then
    match cache.filter (·.1 = store.graphGeneration) with
    | some (_, snapshot) => (some snapshot, cache)
    | none => (some candidate, some (store.graphGeneration, candidate))
  else (none, cache)

structure SymbolNameCached (σ : Type) where
  generation : ℕ
  symbols : σ
  deriving DecidableEq, Repr

def beginSymbolNameCacheQuery (store : GraphStore γ) (cache : Option (SymbolNameCached σ)) :
    ℕ × Option (SymbolNameCached σ) :=
  let generation := store.graphGeneration
  if store.marker then (generation, none)
  else (generation, cache.filter (·.generation = generation))

def finalizeSymbolNameCacheQuery (store : GraphStore γ) (cache : Option (SymbolNameCached σ))
    (queryGeneration : ℕ) (symbols : σ) : SymbolNameCached σ × Option (SymbolNameCached σ) :=
  let candidate := ⟨queryGeneration, symbols⟩
  if isCurrent store queryGeneration then
    match cache.filter (·.generation = store.graphGeneration) with
    | some entry => (entry, cache)
    | none => (candidate, some candidate)
  else (candidate, cache)

/-! ## Readers and publishers -/

/-- A load on its way, and the live generation at which it began. -/
structure Loading (γ ρ : Type) where
  generation : ℕ
  rest : Load γ (Except StoreError ρ)

inductive ImpactReader (γ ρ : Type)
  | idle
  /-- It holds the lock for the fill, and has not checked the cache. -/
  | filling
  | loading (load : Loading γ ρ)

inductive SymbolReader (γ σ : Type)
  | idle
  | loading (load : Loading γ σ)

structure CacheSystem (γ ρ σ ι : Type) where
  publication : System γ
  impactSnapshotCache : Option (ℕ × ρ)
  symbolNameCache : Option (SymbolNameCached σ)
  impactSnapshotComputeLock : Option ι
  impact : ι → ImpactReader γ ρ
  symbols : ι → SymbolReader γ σ

inductive CacheAction (γ ι : Type)
  | publish (a : Action γ)
  | lockFill (i : ι)
  | checkImpact (i : ι)
  | readImpact (i : ι)
  | finishImpact (i : ι)
  /-- The query is cancelled, or its load has failed. -/
  | abandonImpact (i : ι)
  | beginSymbols (i : ι)
  | readSymbols (i : ι)
  | finishSymbols (i : ι)
  | abandonSymbols (i : ι)
  deriving DecidableEq, Repr

/-- What a reader gets: a snapshot, or symbol names that are in the cache from now on. -/
inductive Served (ρ σ : Type)
  | impact (snapshot : ρ)
  | symbols (symbols : σ)
  deriving DecidableEq, Repr

namespace CacheSystem

variable [DecidableEq ι]

/-- A process that has just opened the store. -/
def fresh (publication : System γ) : CacheSystem γ ρ σ ι :=
  ⟨publication, none, none, none, fun _ => .idle, fun _ => .idle⟩

def store (s : CacheSystem γ ρ σ ι) : GraphStore γ := s.publication.store

def setImpact (s : CacheSystem γ ρ σ ι) (i : ι) (reader : ImpactReader γ ρ) :
    CacheSystem γ ρ σ ι :=
  { s with impact := Function.update s.impact i reader }

def setSymbols (s : CacheSystem γ ρ σ ι) (i : ι) (reader : SymbolReader γ σ) :
    CacheSystem γ ρ σ ι :=
  { s with symbols := Function.update s.symbols i reader }

def leaveImpact (s : CacheSystem γ ρ σ ι) (i : ι) : CacheSystem γ ρ σ ι :=
  { s.setImpact i .idle with impactSnapshotComputeLock := none }

def afterPublish (s : CacheSystem γ ρ σ ι) (a : Action γ) (publication : System γ) :
    CacheSystem γ ρ σ ι :=
  match a with
  | .crash => fresh publication
  | _ =>
    if a.underBarrier && !publication.inBarrier then
      { s with publication, impactSnapshotCache := none, symbolNameCache := none }
    else { s with publication }

variable (impactLoad : Load γ (Except StoreError ρ)) (symbolLoad : Load γ (Except StoreError σ))

/-- A step, and what a reader is served by it. -/
def step (s : CacheSystem γ ρ σ ι) :
    CacheAction γ ι → Option (CacheSystem γ ρ σ ι × Option (Served ρ σ))
  | .publish a =>
    if Permitted s.publication a then
      match s.publication.step a with
      | some publication => some (s.afterPublish a publication, none)
      | none => none
    else none
  | .lockFill i =>
    match s.impactSnapshotComputeLock, s.impact i with
    | none, .idle => some ({ s.setImpact i .filling with impactSnapshotComputeLock := some i }, none)
    | _, _ => none
  | .checkImpact i =>
    if s.publication.inBarrier then none
    else match s.impact i with
      | .filling =>
        match checkImpactSnapshot s.store s.impactSnapshotCache with
        | .dirty => some (s.leaveImpact i, none)
        | .hit snapshot => some (s.leaveImpact i, some (.impact snapshot))
        | .miss generation => some (s.setImpact i (.loading ⟨generation, impactLoad⟩), none)
      | _ => none
  | .readImpact i =>
    match s.impact i with
    | .loading ⟨generation, .read next⟩ =>
      some (s.setImpact i (.loading ⟨generation, next s.store.graph⟩), none)
    | _ => none
  | .finishImpact i =>
    if s.publication.inBarrier then none
    else match s.impact i with
      | .loading ⟨generation, .done (.ok candidate)⟩ =>
        let (served, cache) :=
          publishImpactSnapshot s.store s.impactSnapshotCache generation candidate
        some ({ s.leaveImpact i with impactSnapshotCache := cache }, served.map .impact)
      | _ => none
  | .abandonImpact i =>
    match s.impact i with
    | .idle => none
    | _ => some (s.leaveImpact i, none)
  | .beginSymbols i =>
    if s.publication.inBarrier then none
    else match s.symbols i with
      | .idle =>
        match beginSymbolNameCacheQuery s.store s.symbolNameCache with
        | (_, some entry) => some (s, some (.symbols entry.symbols))
        | (generation, none) => some (s.setSymbols i (.loading ⟨generation, symbolLoad⟩), none)
      | _ => none
  | .readSymbols i =>
    match s.symbols i with
    | .loading ⟨generation, .read next⟩ =>
      some (s.setSymbols i (.loading ⟨generation, next s.store.graph⟩), none)
    | _ => none
  | .finishSymbols i =>
    if s.publication.inBarrier then none
    else match s.symbols i with
      | .loading ⟨generation, .done (.ok symbols)⟩ =>
        let (entry, cache) :=
          finalizeSymbolNameCacheQuery s.store s.symbolNameCache generation symbols
        some ({ s.setSymbols i .idle with symbolNameCache := cache },
          if isCurrent s.store generation then some (.symbols entry.symbols) else none)
      | _ => none
  | .abandonSymbols i =>
    match s.symbols i with
    | .idle => none
    | _ => some (s.setSymbols i .idle, none)

end CacheSystem

end Publication
end NestWeaver
