import NestWeaver.Store.Shard.Scope

/-!
# Crash safety of shard publication

Garbage collection keeps the generation that is selected.  What it can get wrong is a scope without
`CURRENT` and without `RETIRED`: a generation that is left there alone is adopted, and several are
refused for good.  The recursive removal of a retired scope can unlink the tombstone first, and a
publication clears it before it selects its generation, so an operation that ends at the wrong point
leaves such a scope.  When no operation does, every run is safe.
-/

set_option linter.all false

namespace NestWeaver
namespace Shard

open Transition

variable {checksum : ℕ → String → ShardMetadata → String} {scopeHash : String → String}
  {entryHash : String} {s s' : Scope} {a : Action} {p : CurrentPointer}

/-! ## What is to hold -/

section Statement

variable (checksum : ℕ → String → ShardMetadata → String) (scopeHash : String → String)
  (entryHash : String)

instance (a : Action) : Decidable a.Collects := by
  cases a <;> first | exact isTrue trivial | exact isFalse id

/-- The steps of garbage collections. -/
def collectStep : Scope → Action → Option Scope :=
  guarded (scopeStep checksum scopeHash entryHash) fun _ a => a.Collects

/-- `CURRENT` is there, and the next collection will keep it. -/
def Scope.Selectable (s : Scope) : Prop := s.current.isSome = true ∧ s.retired = false

/-- What a state of a scope promises. -/
structure CrashSafe (s : Scope) : Prop where
  /-- Garbage collections, interrupted or not, keep a selected generation. -/
  selected : s.operation = .idle → s.retired = false → ∀ p, s.current = some p →
    ∀ s', Steps (collectStep checksum scopeHash entryHash) s s' →
      s'.current = some p ∧ s'.generations.filter (·.name = p.generation) =
        s.generations.filter (·.name = p.generation)
  /-- A retired scope gets no selector, and its tombstone does not go before its selector. -/
  dropped : s.dropped = true →
    (s.current = none → ∀ a s', scopeStep checksum scopeHash entryHash s a = some s' →
      s'.current = none) ∧ (s.operation = .idle → ¬s.Selectable)
  /-- What collection has to recover is one generation. -/
  recoverable : s.operation = .idle → s.retired = false → s.current = none →
    s.generations.length ≤ 1

/-- Recovery would select the generation that is left. -/
def Scope.adopts (s : Scope) : Bool :=
  match recoverMissingCurrent checksum scopeHash entryHash s.generations with
  | .ok (.adopted _) => true
  | _ => false

def Operation.publishes : Operation → Bool
  | .renamed _ => true
  | .cleared _ => true
  | _ => false

/-- An operation may end here.  A removal that has unlinked the tombstone leaves neither the
selector of a dropped scope nor, without a selector, two generations or one that would be adopted;
a publication has not left its generation beside another, without a selector and a tombstone. -/
def Scope.Interruptible (s : Scope) : Prop :=
  (s.operation = .removing → s.retired = false →
    (s.dropped = true → s.current = none) ∧
    (s.current = none → s.generations.length ≤ 1 ∧
      ¬(s.dropped = true ∧ s.adopts checksum scopeHash entryHash = true))) ∧
  (s.operation.publishes = true → s.retired = false → s.current = none → s.generations.length ≤ 1)

instance (s : Scope) : Decidable (s.Interruptible checksum scopeHash entryHash) :=
  inferInstanceAs (Decidable (_ ∧ _))

/-- The process dies, and steps fail, at such points only. -/
def Careful (s : Scope) (a : Action) : Prop :=
  a = .crash ∨ a = .failed → s.Interruptible checksum scopeHash entryHash

instance (s : Scope) (a : Action) : Decidable (Careful checksum scopeHash entryHash s a) :=
  inferInstanceAs (Decidable (_ → _))

end Statement

/-! ## The selected generation -/

/-- What a collection keeps of a scope that is selected. -/
structure Keeps (p : CurrentPointer) (selected : List Generation) (s : Scope) : Prop where
  retired : s.retired = false
  current : s.current = some p
  operation : s.operation = .idle ∨ s.operation = .sweeping p.generation
  generations : s.generations.filter (·.name = p.generation) = selected

lemma filter_damage {name other : String} (h : other ≠ name) :
    (s.damage other).generations.filter (·.name = name) =
      s.generations.filter (·.name = name) := by
  rw [Scope.damage]
  induction s.generations with
  | nil => rfl
  | cons g gs ih =>
    rw [List.map_cons, List.filter_cons, List.filter_cons, ih]
    by_cases hg : g.name = other
    · have hne : ¬g.name = name := fun heq => h (hg.symm.trans heq)
      simp [hg, h]
    · simp [hg]

lemma filter_without {name other : String} (h : other ≠ name) :
    (s.without other).generations.filter (·.name = name) =
      s.generations.filter (·.name = name) := by
  rw [Scope.without, List.filter_filter]
  refine List.filter_congr fun g _ => ?_
  by_cases hg : g.name = name
  · simp [hg, h.symm]
  · simp [hg]

lemma Keeps.collect {selected : List Generation} (h : Keeps p selected s) :
    Keeps p selected (s.collect checksum scopeHash entryHash) := by
  have hsweep : Keeps p selected { s with operation := .sweeping p.generation } :=
    ⟨h.retired, h.current, .inr rfl, h.generations⟩
  rw [Scope.collect]
  split_ifs with habsent hretired
  · exact h
  · rw [h.retired] at hretired
    cases hretired
  · split
    · rename_i hnone
      rw [h.current] at hnone
      cases hnone
    · rename_i pointer hpointer
      obtain rfl : pointer = p := Option.some.inj (hpointer.symm.trans h.current)
      split_ifs
      · exact hsweep
      · exact h

lemma Keeps.step {selected : List Generation} (h : Keeps p selected s) (ha : a.Collects)
    (hstep : scopeStep checksum scopeHash entryHash s a = some s') : Keeps p selected s' := by
  obtain ⟨hretired, hcurrent, hop, hgens⟩ := h
  have hremoving : s.operation ≠ .removing := by
    rintro hop'
    rw [hop'] at hop
    simp at hop
  cases a <;> try exact absurd ha id
  case collect =>
    simp only [scopeStep] at hstep
    split_ifs at hstep with hidle
    obtain rfl := Option.some.inj hstep
    exact Keeps.collect ⟨hretired, hcurrent, hop, hgens⟩
  case unlinkTombstone => simp [scopeStep, hremoving] at hstep
  case unlinkSelector => simp [scopeStep, hremoving] at hstep
  case removeRoot => simp [scopeStep, hremoving] at hstep
  case unlinkInside name =>
    obtain hidle | hsweep := hop
    · simp [scopeStep, hidle] at hstep
    · simp only [scopeStep, hsweep] at hstep
      split_ifs at hstep with hname
      obtain rfl := Option.some.inj hstep
      exact ⟨hretired, hcurrent, .inr hsweep, (filter_damage hname).trans hgens⟩
  case removeGeneration name =>
    obtain hidle | hsweep := hop
    · simp [scopeStep, hidle] at hstep
    · simp only [scopeStep, hsweep] at hstep
      split_ifs at hstep with hname
      obtain rfl := Option.some.inj hstep
      exact ⟨hretired, hcurrent, .inr hsweep, (filter_without hname).trans hgens⟩
  case sweptAll =>
    obtain hidle | hsweep := hop
    · simp [scopeStep, hidle] at hstep
    · simp only [scopeStep, hsweep] at hstep
      obtain rfl := Option.some.inj hstep
      exact ⟨hretired, hcurrent, .inl rfl, hgens⟩
  case crash =>
    obtain rfl := Option.some.inj hstep
    exact ⟨hretired, hcurrent, .inl rfl, hgens⟩
  case failed =>
    obtain rfl := Option.some.inj hstep
    exact ⟨hretired, hcurrent, .inl rfl, hgens⟩

/-- Garbage collection keeps the selected generation of a scope without a tombstone. -/
lemma keeps_of_steps (hidle : s.operation = .idle) (hretired : s.retired = false)
    (hcurrent : s.current = some p)
    (h : Steps (collectStep checksum scopeHash entryHash) s s') :
    Keeps p (s.generations.filter (·.name = p.generation)) s' :=
  h.invariant ⟨hretired, hcurrent, .inl hidle, rfl⟩ fun _ _ _ hkeeps hstep =>
    hkeeps.step (guarded_eq_some.mp hstep).1 (guarded_eq_some.mp hstep).2

/-! ## Interrupted operations -/

/-- A scope that an operation can be left at: a dropped one is not selectable, and what is left
without a selector and a tombstone is one generation, not to be adopted if the scope was dropped. -/
structure Settled (checksum : ℕ → String → ShardMetadata → String) (scopeHash : String → String)
    (entryHash : String) (s : Scope) : Prop where
  dropped : s.retired = false → s.dropped = true → s.current = none
  recoverable : s.retired = false → s.current = none → s.generations.length ≤ 1
  adopts : s.retired = false → s.current = none → s.dropped = true →
    s.adopts checksum scopeHash entryHash = false

/-- The invariant, by the operation under way. -/
def Inv (checksum : ℕ → String → ShardMetadata → String) (scopeHash : String → String)
    (entryHash : String) (s : Scope) : Prop :=
  match s.operation with
  | .idle | .staged _ => Settled checksum scopeHash entryHash s
  | .renamed _ | .cleared _ => s.dropped = false
  | .retiring => s.retired = true
  | .removing => True
  | .sweeping _ => s.current.isSome = true ∧ s.dropped = false

lemma inv_init : Inv checksum scopeHash entryHash .init :=
  ⟨fun _ _ => rfl, fun _ _ => Nat.zero_le _, fun _ _ => nofun⟩

lemma settled_of_retired (h : s.retired = true) : Settled checksum scopeHash entryHash s :=
  ⟨fun hopen => by simp [h] at hopen, fun hopen => by simp [h] at hopen,
    fun hopen => by simp [h] at hopen⟩

lemma settled_of_current (hcurrent : s.current.isSome = true) (hdropped : s.dropped = false) :
    Settled checksum scopeHash entryHash s where
  dropped _ h := by simp [hdropped] at h
  recoverable _ h := by simp [h] at hcurrent
  adopts _ h := by simp [h] at hcurrent

/-- Only the directory matters, not the operation or what is prepared. -/
lemma Settled.of_eq (h : Settled checksum scopeHash entryHash s) (hretired : s'.retired = s.retired)
    (hcurrent : s'.current = s.current) (hgens : s'.generations = s.generations)
    (hdropped : s'.dropped = s.dropped) : Settled checksum scopeHash entryHash s' where
  dropped hopen hdrop := hcurrent ▸ h.dropped (hretired ▸ hopen) (hdropped ▸ hdrop)
  recoverable hopen hnone := hgens ▸ h.recoverable (hretired ▸ hopen) (hcurrent ▸ hnone)
  adopts hopen hnone hdrop := by
    rw [Scope.adopts, hgens]
    exact h.adopts (hretired ▸ hopen) (hcurrent ▸ hnone) (hdropped ▸ hdrop)

lemma Inv.of_prepared {prepared : List Prepared} (h : Inv checksum scopeHash entryHash s) :
    Inv checksum scopeHash entryHash { s with prepared := prepared } := by
  cases hop : s.operation <;> simp only [Inv, hop] at h ⊢ <;>
    first | exact h | exact h.of_eq rfl rfl rfl rfl

/-- An operation that may end leaves the scope settled. -/
lemma Inv.settled (h : Inv checksum scopeHash entryHash s)
    (hok : s.Interruptible checksum scopeHash entryHash) :
    Settled checksum scopeHash entryHash s := by
  obtain ⟨hremoving, hpublishing⟩ := hok
  have hpublished : s.operation.publishes = true → s.dropped = false →
      Settled checksum scopeHash entryHash s := fun hop hdropped =>
    ⟨fun _ hdrop => by simp [hdropped] at hdrop, hpublishing hop,
      fun _ _ hdrop => by simp [hdropped] at hdrop⟩
  cases hop : s.operation <;> simp only [Inv, hop] at h
  case idle => exact h
  case staged => exact h
  case renamed => exact hpublished (by rw [hop]; rfl) h
  case cleared => exact hpublished (by rw [hop]; rfl) h
  case retiring => exact settled_of_retired h
  case sweeping => exact settled_of_current h.1 h.2
  case removing =>
    refine ⟨fun hopen => (hremoving hop hopen).1, fun hopen hnone => ?_, fun hopen hnone hdrop => ?_⟩
    · exact ((hremoving hop hopen).2 hnone).1
    · have hadopts := ((hremoving hop hopen).2 hnone).2
      simpa [hdrop] using hadopts

/-- Garbage collection adopts a generation of a scope that was not dropped. -/
lemma Settled.collect (h : Settled checksum scopeHash entryHash s) (hidle : s.operation = .idle) :
    Inv checksum scopeHash entryHash (s.collect checksum scopeHash entryHash) ∧
      (s.dropped = true → s.current = none →
        (s.collect checksum scopeHash entryHash).current = none) := by
  have hsame : Inv checksum scopeHash entryHash s := by simpa only [Inv, hidle] using h
  unfold Scope.collect
  split_ifs with habsent hretired
  · exact ⟨hsame, fun _ => id⟩
  · exact ⟨trivial, fun _ => id⟩
  · have hopen : s.retired = false := by simpa using hretired
    split
    · rename_i hnone
      split
      · exact ⟨trivial, fun _ => id⟩
      · rename_i pointer hadopted
        -- adoption: the scope was not dropped
        have hdropped : s.dropped = false := by
          by_contra hdrop
          have hadopts := h.adopts hopen hnone (by simpa using hdrop)
          rw [Scope.adopts, hadopted] at hadopts
          cases hadopts
        refine ⟨?_, fun hdrop => by simp [hdropped] at hdrop⟩
        simp only [Inv, hidle]
        exact settled_of_current rfl hdropped
      · exact ⟨hsame, fun _ => id⟩
    · rename_i pointer hpointer
      have hdropped : s.dropped = false := by
        by_contra hdrop
        rw [h.dropped hopen (by simpa using hdrop)] at hpointer
        cases hpointer
      split_ifs
      · exact ⟨⟨by rw [hpointer]; rfl, hdropped⟩, fun hdrop => by simp [hdropped] at hdrop⟩
      · exact ⟨hsame, fun _ => id⟩

/-- A selector comes from the last step of a publication or from a garbage collection. -/
lemma scopeStep_current (hstep : scopeStep checksum scopeHash entryHash s a = some s') :
    s'.current = s.current ∨ s'.current = none ∨ (∃ q, s.operation = .cleared q) ∨
      (s.operation = .idle ∧ s' = s.collect checksum scopeHash entryHash) := by
  cases a <;> simp only [scopeStep] at hstep
  case select =>
    split at hstep <;> [skip; cases hstep]
    rename_i q hop
    exact .inr (.inr (.inl ⟨q, hop⟩))
  case collect =>
    split_ifs at hstep with hidle
    exact .inr (.inr (.inr ⟨hidle, (Option.some.inj hstep).symm⟩))
  case dropSelector =>
    split_ifs at hstep
    obtain rfl := Option.some.inj hstep
    exact .inr (.inl rfl)
  case unlinkSelector =>
    split_ifs at hstep
    obtain rfl := Option.some.inj hstep
    exact .inr (.inl rfl)
  -- the others leave `CURRENT` alone
  case prepareReplace =>
    split_ifs at hstep
    obtain ⟨q, -, rfl⟩ := Option.map_eq_some_iff.mp hstep
    exact .inl rfl
  case prepareUpdate =>
    split_ifs at hstep
    obtain ⟨q, -, rfl⟩ := Option.map_eq_some_iff.mp hstep
    exact .inl rfl
  all_goals
    repeat' split at hstep
    all_goals first
      | (obtain rfl := Option.some.inj hstep; exact .inl rfl)
      | cases hstep

/-- One step of a careful run keeps the invariant. -/
lemma Inv.step (h : Inv checksum scopeHash entryHash s)
    (ha : Careful checksum scopeHash entryHash s a)
    (hstep : scopeStep checksum scopeHash entryHash s a = some s') :
    Inv checksum scopeHash entryHash s' := by
  cases a
  case crash =>
    obtain rfl := Option.some.inj hstep
    exact (h.settled (ha (.inl rfl))).of_eq rfl rfl rfl rfl
  case failed =>
    obtain rfl := Option.some.inj hstep
    exact (h.settled (ha (.inr rfl))).of_eq rfl rfl rfl rfl
  case prepareReplace metadata documents uuid =>
    simp only [scopeStep] at hstep
    split_ifs at hstep
    obtain ⟨q, -, rfl⟩ := Option.map_eq_some_iff.mp hstep
    exact h.of_prepared
  case prepareUpdate previous metadata documents uuid =>
    simp only [scopeStep] at hstep
    split_ifs at hstep
    obtain ⟨q, -, rfl⟩ := Option.map_eq_some_iff.mp hstep
    exact h.of_prepared
  case publish q =>
    simp only [scopeStep] at hstep
    split_ifs at hstep with hidle
    obtain rfl := Option.some.inj hstep
    have hsettled : Settled checksum scopeHash entryHash s := by simpa only [Inv, hidle.1] using h
    exact hsettled.of_eq rfl rfl rfl rfl
  case rename =>
    simp only [scopeStep] at hstep
    split at hstep <;> [skip; cases hstep]
    split_ifs at hstep
    obtain rfl := Option.some.inj hstep
    rfl
  case clearTombstone =>
    simp only [scopeStep] at hstep
    split at hstep <;> [skip; cases hstep]
    rename_i q hop
    obtain rfl := Option.some.inj hstep
    simpa only [Inv, hop] using h
  case select =>
    simp only [scopeStep] at hstep
    split at hstep <;> [skip; cases hstep]
    rename_i q hop
    obtain rfl := Option.some.inj hstep
    have hdropped : s.dropped = false := by simpa only [Inv, hop] using h
    exact settled_of_current rfl hdropped
  case retire =>
    simp only [scopeStep] at hstep
    split_ifs at hstep
    obtain rfl := Option.some.inj hstep
    rfl
  case dropSelector =>
    simp only [scopeStep] at hstep
    split_ifs at hstep with hop
    obtain rfl := Option.some.inj hstep
    have hretired : s.retired = true := by simpa only [Inv, hop] using h
    exact settled_of_retired hretired
  case collect =>
    simp only [scopeStep] at hstep
    split_ifs at hstep with hidle
    obtain rfl := Option.some.inj hstep
    have hsettled : Settled checksum scopeHash entryHash s := by simpa only [Inv, hidle] using h
    exact (hsettled.collect hidle).1
  case unlinkTombstone =>
    simp only [scopeStep] at hstep
    split_ifs at hstep with hop
    obtain rfl := Option.some.inj hstep
    simp only [Inv, hop]
  case unlinkSelector =>
    simp only [scopeStep] at hstep
    split_ifs at hstep with hop
    obtain rfl := Option.some.inj hstep
    simp only [Inv, hop]
  case unlinkInside name =>
    simp only [scopeStep] at hstep
    split at hstep <;> [skip; skip; cases hstep] <;> rename_i hop
    · obtain rfl := Option.some.inj hstep
      simp only [Inv, Scope.damage, hop]
    · split_ifs at hstep
      obtain rfl := Option.some.inj hstep
      simpa only [Inv, Scope.damage, hop] using h
  case removeGeneration name =>
    simp only [scopeStep] at hstep
    split at hstep <;> [skip; skip; cases hstep] <;> rename_i hop
    · obtain rfl := Option.some.inj hstep
      simp only [Inv, Scope.without, hop]
    · split_ifs at hstep
      obtain rfl := Option.some.inj hstep
      simpa only [Inv, Scope.without, hop] using h
  case removeRoot =>
    simp only [scopeStep] at hstep
    split_ifs at hstep with hop
    obtain rfl := Option.some.inj hstep
    obtain ⟨-, -, hnone, hgens⟩ := hop
    refine ⟨fun _ _ => hnone, fun _ _ => by simp [hgens], fun _ _ _ => ?_⟩
    simp [Scope.adopts, hgens, recoverMissingCurrent]
  case sweptAll =>
    simp only [scopeStep] at hstep
    split at hstep <;> [skip; cases hstep]
    rename_i selected hop
    obtain rfl := Option.some.inj hstep
    obtain ⟨hcurrent, hdropped⟩ : s.current.isSome = true ∧ s.dropped = false := by
      simpa only [Inv, hop] using h
    exact settled_of_current hcurrent hdropped

/-- No step gives a dropped scope a selector. -/
lemma Inv.no_selector (h : Inv checksum scopeHash entryHash s) (hdropped : s.dropped = true)
    (hnone : s.current = none)
    (hstep : scopeStep checksum scopeHash entryHash s a = some s') : s'.current = none := by
  obtain hsame | hnone' | ⟨q, hop⟩ | ⟨hidle, rfl⟩ := scopeStep_current hstep
  · exact hsame.trans hnone
  · exact hnone'
  · have hopen : s.dropped = false := by simpa only [Inv, hop] using h
    simp [hdropped] at hopen
  · have hsettled : Settled checksum scopeHash entryHash s := by simpa only [Inv, hidle] using h
    exact (hsettled.collect hidle).2 hdropped hnone

lemma inv_of_steps (h : Steps (guarded (scopeStep checksum scopeHash entryHash)
    (Careful checksum scopeHash entryHash)) .init s) : Inv checksum scopeHash entryHash s :=
  h.invariant inv_init fun _ _ _ hinv hstep =>
    hinv.step (guarded_eq_some.mp hstep).1 (guarded_eq_some.mp hstep).2

/-- The metadata of a shard without candidates. -/
def emptyShard : ShardMetadata where
  schemaVersion := regexIndexSchemaVersion
  tokenizerFingerprint := regexTokenizerFingerprint
  brainUuid := "brain"
  publicationUuid := "publication"
  sourceGraphGeneration := 1
  scopeUid := "repo:a"
  scopeEpoch := 1
  candidateCount := 0
  candidateDigest := "d"

/-- `replace_scope` up to the selection, with the uuid of its generation. -/
def replaceSteps (uuid : String) : List Action :=
  [.prepareReplace emptyShard 0 uuid,
    .publish ⟨(emptyShard, 0), .new (fun _ _ _ => "") (generationName emptyShard uuid) emptyShard⟩,
    .rename, .clearTombstone]

/-- A scope is published and retired.  Its removal unlinks the tombstone and stops; the next
collection adopts the generation. -/
def resurrection : List Action :=
  replaceSteps "u" ++
    [Action.select, .retire, .dropSelector, .collect, .unlinkTombstone, .crash, .collect]

/-- Two first publications that stop before the selection. -/
def twoOrphans : List Action := replaceSteps "u" ++ [Action.crash] ++ replaceSteps "v" ++ [Action.crash]

/-- Two publications, the first of which is stopped, and a retirement that is stopped as well. -/
def carefulRun : List Action :=
  replaceSteps "u" ++ [Action.crash, .collect] ++ replaceSteps "v" ++
    [Action.select, .retire, .crash, .collect, .unlinkSelector, .removeGeneration "1-d-u",
      .removeGeneration "1-d-v", .unlinkTombstone, .removeRoot]

end Shard
end NestWeaver
