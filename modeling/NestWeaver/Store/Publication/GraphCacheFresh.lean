import NestWeaver.Store.Publication.GraphCache
import NestWeaver.Store.Publication.OneGraph

/-!
# The graph caches are never stale

While no owner holds the barrier, the live counter is at most one above the settled generation
(`liveBound_run`).  So two moments with one live generation, the later one without a marker, have no
publication between them, and every state in between has the graph of the later one
(`PermittedRun.graph_eq`).  What a reader has loaded between two checks is therefore what it would
load from the graph at the second one.
-/

set_option linter.all false

namespace NestWeaver
namespace Publication

open Transition

variable {γ ρ σ ι : Type}

/-! ## Permitted runs of publishers -/

section Permitted

variable {sys sys' : System γ} {a : Action γ}

lemma sound_of_permitted (h : Permitted sys a = true) : Sound sys a := by
  cases a with
  | drop =>
    rintro ⟨p, hp, hstage⟩
    obtain hstage | hstage := hstage
    · simp [Permitted, System.inBarrier, hp, hstage] at h
    · simp [Permitted, System.inBarrier, hp, hstage] at h
  | rederive =>
    intro c hbase
    simpa [Permitted, hbase] using h
  | _ => exact True.intro

def PermittedRun : System γ → System γ → Prop :=
  Relation.ReflTransGen fun sys sys' => ∃ a, Permitted sys a = true ∧ sys.step a = some sys'

lemma PermittedRun.sound (h : PermittedRun sys sys') : SoundRun sys sys' := by
  refine Relation.ReflTransGen.mono ?_ _ _ h
  rintro x y ⟨a, hpermitted, hstep⟩
  exact ⟨a, sound_of_permitted hpermitted, hstep⟩

/-- The clean generation has been made live, and the owner has not accounted for it yet. -/
def System.CleanIsLive (sys : System γ) : Prop :=
  ∃ p, sys.publisher = some p ∧
    (p.stage = .published ∨ p.stage = .retired ∨ p.stage = .unretired)

def System.LiveBound (sys : System γ) : Prop :=
  sys.CleanIsLive ∨ sys.store.graphGeneration ≤ sys.store.canonical + 1

lemma inBarrier_of_cleanIsLive (h : sys.CleanIsLive) : sys.inBarrier = true := by
  obtain ⟨p, hp, hstage | hstage | hstage⟩ := h
  · simp [System.inBarrier, hp, hstage]
  · simp [System.inBarrier, hp, hstage]
  · simp [System.inBarrier, hp, hstage]

lemma liveBound_reopen {s : GraphStore γ} {g : ℕ} (hg : s.sidecar = some g) :
    System.LiveBound ⟨s.reopen, none⟩ := by
  refine .inr ?_
  by_cases hmarker : s.marker = true
  · simp only [reopen_of_marker hmarker hg, GraphStore.canonical, Option.getD_some, saturatingAdd]
    omega
  · simp only [reopen_of_clean (by simpa using hmarker) hg, GraphStore.canonical, Option.getD_none]
    omega

lemma Effect.liveBound (hinv : sys.Inv) (hpermitted : Permitted sys a = true)
    (h : Effect sys a sys') (hbound : sys.LiveBound) : sys'.LiveBound := by
  cases h with
  | crash =>
    obtain ⟨g, hg, -⟩ := hinv.exists_sidecar
    exact liveBound_reopen hg
  | publish hstage => exact .inl ⟨_, rfl, .inl rfl⟩
  | retire hstage hnext => exact .inl ⟨_, rfl, .inr hnext⟩
  | keep hstage => exact .inl ⟨_, rfl, .inr (.inr rfl)⟩
  | reserveFresh hstage hnone hlive => exact .inr le_rfl
  | failClean hstage => exact .inr (min_le_left _ _)
  | complete hstage => exact .inr (Nat.le_succ _)
  | cancel hstage hmutated hfresh => exact .inr (Nat.le_succ _)
  | @surrender s p a ha hstage =>
    -- the owner is not in the middle of anything
    obtain ⟨p', hp', hlive⟩ | hbound := hbound
    · obtain rfl := Option.some.inj hp'
      obtain ⟨-, hclosed⟩ | rfl := ha
      · simp [hclosed] at hlive
      · have hin : System.CleanIsLive ⟨s, some p⟩ := ⟨p, rfl, hlive⟩
        simp [Permitted, inBarrier_of_cleanIsLive hin] at hpermitted
    · exact .inr hbound
  | acquire hlease howner =>
    obtain ⟨p, hp, -⟩ | hbound := hbound
    · cases hp
    · exact .inr hbound
  | _ =>
    -- neither the counter nor the base changes, and the owner has not come so far
    obtain ⟨p, hp, hlive⟩ | hbound := hbound
    · obtain rfl := Option.some.inj hp
      grind
    · exact .inr hbound

/-- What holds of a store in permitted runs. -/
structure System.Bounded (sys : System γ) : Prop where
  inv : sys.Inv
  liveBound : sys.LiveBound

lemma PermittedRun.bounded (h : PermittedRun sys sys') (hsys : sys.Bounded) : sys'.Bounded := by
  induction h with
  | refl => exact hsys
  | tail _ hstep ih =>
    obtain ⟨a, hpermitted, hstep⟩ := hstep
    have heffect := effect_of_step ih.inv (sound_of_permitted hpermitted) hstep
    exact ⟨ih.inv.effect heffect, heffect.liveBound ih.inv hpermitted ih.liveBound⟩

lemma bounded_opened {graph : γ} {marker : Bool} {generation : ℕ} (hle : generation ≤ u64Max) :
    (opened graph marker generation).Bounded :=
  ⟨inv_opened hle, liveBound_reopen rfl⟩

/-- Outside of the barrier the live counter is at most one above the settled generation. -/
lemma System.Bounded.live_le (h : sys.Bounded) (hout : sys.inBarrier = false) :
    sys.store.graphGeneration ≤ sys.store.settled + 1 := by
  by_cases hmarker : sys.store.marker = true
  · obtain hlive | hbound := h.liveBound
    · rw [inBarrier_of_cleanIsLive hlive] at hout
      cases hout
    · rwa [settled_of_marker hmarker]
  · exact (h.inv.live_of_clean (by simpa using hmarker)).2

/-- **Two moments with one live generation have one graph between them**, if the first is outside of
the barrier and the second has no marker. -/
theorem PermittedRun.graph_eq {mid last : System γ} (h : PermittedRun sys mid)
    (h' : PermittedRun mid last) (hsys : sys.Bounded) (hout : sys.inBarrier = false)
    (hmarker : last.store.marker = false)
    (hsame : sys.store.graphGeneration = last.store.graphGeneration) :
    mid.store.graph = last.store.graph := by
  have hmid := h.bounded hsys
  have hlast := h'.bounded hmid
  have hlow := hsys.live_le hout
  have hhigh := (hlast.inv.live_of_clean hmarker).1
  have h₁ := (h.sound.progress hsys.inv).settled_le
  obtain hlt | ⟨-, -, hback⟩ := h'.sound.progress hmid.inv
  · omega
  · exact (hback (pristine_of_clean hmarker)).2.symm

end Permitted

/-! ## What readers and caches know -/

/-- At some earlier moment without a marker the counter was this one, and this held of the graph. -/
def Witnessed (now : System γ) (generation : ℕ) (P : γ → Prop) : Prop :=
  ∃ x, PermittedRun x now ∧ x.Bounded ∧ x.store.marker = false ∧
    x.store.graphGeneration = generation ∧ P x.store.graph

/-- A graph that a run from now on may show under the generation, outside of the barrier. -/
def Ahead (now : System γ) (generation : ℕ) (graph : γ) : Prop :=
  ∃ y, PermittedRun now y ∧ y.store.marker = false ∧ y.store.graphGeneration = generation ∧
    y.store.graph = graph

/-- The load began at the generation, and on every graph that may still show under it what is left
of the load has the result of the whole load. -/
def Tracks (now : System γ) (load : Load γ (Except StoreError ρ)) (l : Loading γ ρ) : Prop :=
  (∃ x, PermittedRun x now ∧ x.Bounded ∧ x.inBarrier = false ∧
    x.store.graphGeneration = l.generation) ∧
  l.rest.AgreesOn (Ahead now l.generation) load

section Knowledge

variable {now now' : System γ} {generation : ℕ} {P : γ → Prop}
  {load : Load γ (Except StoreError ρ)} {l : Loading γ ρ}

lemma Witnessed.run (h : Witnessed now generation P) (hrun : PermittedRun now now') :
    Witnessed now' generation P := by
  obtain ⟨x, hx, hrest⟩ := h
  exact ⟨x, hx.trans hrun, hrest⟩

/-- What was known of the graph at a generation is still so when the generation is current. -/
lemma Witnessed.current (h : Witnessed now generation P) (hmarker : now.store.marker = false)
    (hlive : now.store.graphGeneration = generation) : P now.store.graph := by
  obtain ⟨x, hx, hbounded, hclean, hgeneration, hP⟩ := h
  have hgraph := SoundRun.graph_eq hx.sound hbounded.inv hclean hmarker
    (.inr (hgeneration.trans hlive.symm))
  exact hgraph ▸ hP

lemma witnessed_of_clean (hnow : now.Bounded) (hmarker : now.store.marker = false)
    (hP : P now.store.graph) : Witnessed now now.store.graphGeneration P :=
  ⟨now, .refl, hnow, hmarker, rfl, hP⟩

lemma Tracks.run (h : Tracks now load l) (hrun : PermittedRun now now') : Tracks now' load l := by
  obtain ⟨⟨x, hx, hrest⟩, hagrees⟩ := h
  refine ⟨⟨x, hx.trans hrun, hrest⟩, hagrees.mono ?_⟩
  rintro graph ⟨y, hy, hgraph⟩
  exact ⟨y, hrun.trans hy, hgraph⟩

lemma tracks_begin (hnow : now.Bounded) (hout : now.inBarrier = false) :
    Tracks now load ⟨now.store.graphGeneration, load⟩ :=
  ⟨⟨now, .refl, hnow, hout, rfl⟩, .refl load⟩

/-- A read sees the graph that the load is checked against in the end, if it is not in vain. -/
lemma Tracks.read {next : γ → Load γ (Except StoreError ρ)}
    (h : Tracks now load ⟨generation, .read next⟩) :
    Tracks now load ⟨generation, next now.store.graph⟩ := by
  obtain ⟨⟨x, hx, hbounded, hout, hgeneration⟩, hagrees⟩ := h
  refine ⟨⟨x, hx, hbounded, hout, hgeneration⟩, hagrees.read ?_⟩
  rintro graph ⟨y, hy, hmarker, hlive, rfl⟩
  exact (hx.graph_eq hy hbounded hout hmarker (hgeneration.trans hlive.symm)).symm

lemma Tracks.finish {result : Except StoreError ρ} (h : Tracks now load ⟨generation, .done result⟩)
    (hmarker : now.store.marker = false) (hlive : now.store.graphGeneration = generation) :
    load.eval now.store.graph = result :=
  (h.2 _ ⟨now, .refl, hmarker, hlive, rfl⟩).symm

end Knowledge

/-! ## What the checks decide -/

section Checks

variable {store : GraphStore γ} {generation : ℕ}

lemma isCurrent_iff : isCurrent store generation = true ↔
    store.marker = false ∧ store.graphGeneration = generation := by
  simp [isCurrent]

lemma filter_generation {cache : Option (ℕ × ρ)} {g : ℕ} {snapshot : ρ}
    (h : cache.filter (·.1 = generation) = some (g, snapshot)) :
    cache = some (generation, snapshot) := by
  obtain ⟨hcache, hg⟩ := Option.filter_eq_some_iff.mp h
  obtain rfl : g = generation := by simpa using hg
  exact hcache

lemma checkImpactSnapshot_hit {cache : Option (ℕ × ρ)} {snapshot : ρ}
    (h : checkImpactSnapshot store cache = .hit snapshot) :
    store.marker = false ∧ cache = some (store.graphGeneration, snapshot) := by
  rw [checkImpactSnapshot] at h
  by_cases hmarker : store.marker = true
  · simp [hmarker] at h
  · rw [if_neg hmarker] at h
    refine ⟨by simpa using hmarker, ?_⟩
    cases hfilter : cache.filter (·.1 = store.graphGeneration) with
    | none => simp [hfilter] at h
    | some entry =>
      obtain ⟨g, snapshot'⟩ := entry
      simp only [hfilter, ImpactCheck.hit.injEq] at h
      exact h ▸ filter_generation hfilter

lemma checkImpactSnapshot_miss {cache : Option (ℕ × ρ)}
    (h : checkImpactSnapshot store cache = .miss generation) :
    store.graphGeneration = generation := by
  rw [checkImpactSnapshot] at h
  by_cases hmarker : store.marker = true
  · simp [hmarker] at h
  · rw [if_neg hmarker] at h
    cases hfilter : cache.filter (·.1 = store.graphGeneration) with
    | none => simpa [hfilter] using h
    | some entry => simp [hfilter] at h

/-- A candidate that is current is stored, unless the cache has an entry of the generation. -/
lemma publishImpactSnapshot_of_current (cache : Option (ℕ × ρ)) (candidate : ρ)
    (h : isCurrent store generation = true) :
    ∃ snapshot, publishImpactSnapshot store cache generation candidate =
        (some snapshot, some (store.graphGeneration, snapshot)) ∧
      (cache = some (store.graphGeneration, snapshot) ∨ snapshot = candidate) := by
  rw [publishImpactSnapshot, if_pos h]
  cases hfilter : cache.filter (·.1 = store.graphGeneration) with
  | none => exact ⟨candidate, rfl, .inr rfl⟩
  | some entry =>
    obtain ⟨g, snapshot⟩ := entry
    have hcache := filter_generation hfilter
    exact ⟨snapshot, by rw [hcache], .inl hcache⟩

lemma publishImpactSnapshot_of_not_current (cache : Option (ℕ × ρ)) (candidate : ρ)
    (h : isCurrent store generation = false) :
    publishImpactSnapshot store cache generation candidate = (none, cache) := by
  simp [publishImpactSnapshot, h]

lemma beginSymbolNameCacheQuery_hit {cache : Option (SymbolNameCached σ)}
    {entry : SymbolNameCached σ}
    (h : beginSymbolNameCacheQuery store cache = (generation, some entry)) :
    store.marker = false ∧ cache = some entry ∧ store.graphGeneration = entry.generation := by
  rw [beginSymbolNameCacheQuery] at h
  by_cases hmarker : store.marker = true
  · simp [hmarker] at h
  · simp only [if_neg hmarker, Prod.mk.injEq] at h
    obtain ⟨hcache, hgeneration⟩ := Option.filter_eq_some_iff.mp h.2
    exact ⟨by simpa using hmarker, hcache, by simpa [eq_comm] using hgeneration⟩

lemma beginSymbolNameCacheQuery_fst (cache : Option (SymbolNameCached σ)) :
    (beginSymbolNameCacheQuery store cache).1 = store.graphGeneration := by
  rw [beginSymbolNameCacheQuery]
  split_ifs
  · rfl
  · rfl

lemma finalizeSymbolNameCacheQuery_of_current (cache : Option (SymbolNameCached σ)) (symbols : σ)
    (h : isCurrent store generation = true) :
    ∃ entry, finalizeSymbolNameCacheQuery store cache generation symbols = (entry, some entry) ∧
      entry.generation = store.graphGeneration ∧
      (cache = some entry ∨ entry.symbols = symbols) := by
  rw [finalizeSymbolNameCacheQuery, if_pos h]
  cases hfilter : cache.filter (·.generation = store.graphGeneration) with
  | none => exact ⟨⟨generation, symbols⟩, rfl, (isCurrent_iff.mp h).2.symm, .inr rfl⟩
  | some entry =>
    obtain ⟨hcache, hgeneration⟩ := Option.filter_eq_some_iff.mp hfilter
    exact ⟨entry, by rw [hcache], by simpa using hgeneration, .inl hcache⟩

lemma finalizeSymbolNameCacheQuery_of_not_current (cache : Option (SymbolNameCached σ))
    (symbols : σ) (h : isCurrent store generation = false) :
    (finalizeSymbolNameCacheQuery store cache generation symbols).2 = cache := by
  simp [finalizeSymbolNameCacheQuery, h]

end Checks

/-! ## Steps of readers and publishers -/

variable [DecidableEq ι] {impactLoad : Load γ (Except StoreError ρ)}
  {symbolLoad : Load γ (Except StoreError σ)}

variable (impactLoad symbolLoad) in
structure CacheSystem.Inv (s : CacheSystem γ ρ σ ι) : Prop where
  bounded : s.publication.Bounded
  impactCache : ∀ generation snapshot, s.impactSnapshotCache = some (generation, snapshot) →
    Witnessed s.publication generation fun graph => impactLoad.eval graph = .ok snapshot
  symbolCache : ∀ entry, s.symbolNameCache = some entry →
    Witnessed s.publication entry.generation fun graph => symbolLoad.eval graph = .ok entry.symbols
  impact : ∀ i l, s.impact i = .loading l → Tracks s.publication impactLoad l
  symbols : ∀ i l, s.symbols i = .loading l → Tracks s.publication symbolLoad l

variable (impactLoad symbolLoad) in
/-- What is served is what a load of the present graph gives, and there is no marker. -/
def Served.Fresh (store : GraphStore γ) (served : Served ρ σ) : Prop :=
  store.marker = false ∧
    match served with
    | .impact snapshot => impactLoad.eval store.graph = .ok snapshot
    | .symbols names => symbolLoad.eval store.graph = .ok names

namespace CacheSystem

variable {s s' : CacheSystem γ ρ σ ι} {i : ι}

lemma Inv.setImpact (hinv : s.Inv impactLoad symbolLoad) {reader : ImpactReader γ ρ}
    (h : ∀ l, reader = .loading l → Tracks s.publication impactLoad l) :
    (s.setImpact i reader).Inv impactLoad symbolLoad := by
  refine { hinv with impact := fun j l hl => ?_ }
  by_cases hj : j = i
  · subst hj
    exact h l (by simpa [CacheSystem.setImpact] using hl)
  · exact hinv.impact j l (by simpa [CacheSystem.setImpact, hj] using hl)

lemma Inv.setSymbols (hinv : s.Inv impactLoad symbolLoad) {reader : SymbolReader γ σ}
    (h : ∀ l, reader = .loading l → Tracks s.publication symbolLoad l) :
    (s.setSymbols i reader).Inv impactLoad symbolLoad := by
  refine { hinv with symbols := fun j l hl => ?_ }
  by_cases hj : j = i
  · subst hj
    exact h l (by simpa [CacheSystem.setSymbols] using hl)
  · exact hinv.symbols j l (by simpa [CacheSystem.setSymbols, hj] using hl)

lemma Inv.leaveImpact (hinv : s.Inv impactLoad symbolLoad) :
    (s.leaveImpact i).Inv impactLoad symbolLoad := by
  have hidle : (s.setImpact i .idle).Inv impactLoad symbolLoad := hinv.setImpact (by simp)
  exact { hidle with }

omit [DecidableEq ι] in
lemma inv_fresh {publication : System γ} (h : publication.Bounded) :
    (fresh publication : CacheSystem γ ρ σ ι).Inv impactLoad symbolLoad where
  bounded := h
  impactCache := by simp [fresh]
  symbolCache := by simp [fresh]
  impact := by simp [fresh]
  symbols := by simp [fresh]

omit [DecidableEq ι] in
/-- A step of a publisher keeps what is known, and it may empty the caches. -/
lemma Inv.afterPublish {a : Action γ} {publication : System γ}
    (hinv : s.Inv impactLoad symbolLoad) (hpermitted : Permitted s.publication a = true)
    (hstep : s.publication.step a = some publication) :
    (s.afterPublish a publication).Inv impactLoad symbolLoad := by
  have hrun : PermittedRun s.publication publication := .single ⟨a, hpermitted, hstep⟩
  have hbounded := hrun.bounded hinv.bounded
  have hkept : ({ s with publication } : CacheSystem γ ρ σ ι).Inv impactLoad symbolLoad :=
    { bounded := hbounded
      impactCache := fun generation snapshot h => (hinv.impactCache generation snapshot h).run hrun
      symbolCache := fun entry h => (hinv.symbolCache entry h).run hrun
      impact := fun i l h => (hinv.impact i l h).run hrun
      symbols := fun i l h => (hinv.symbols i l h).run hrun }
  have hemptied : ({ s with publication, impactSnapshotCache := none, symbolNameCache := none } :
      CacheSystem γ ρ σ ι).Inv impactLoad symbolLoad :=
    { hkept with
      impactCache := by simp
      symbolCache := by simp }
  cases a with
  | crash => exact inv_fresh hbounded
  | _ =>
    simp only [CacheSystem.afterPublish]
    split_ifs
    · exact hemptied
    · exact hkept

/-- What one load has found is stored and served at a moment at which it is current. -/
lemma Inv.finishImpact {generation : ℕ} {candidate : ρ} (hinv : s.Inv impactLoad symbolLoad)
    (hreader : s.impact i = .loading ⟨generation, .done (.ok candidate)⟩) :
    ({ s.leaveImpact i with
        impactSnapshotCache :=
          (publishImpactSnapshot s.store s.impactSnapshotCache generation candidate).2 } :
      CacheSystem γ ρ σ ι).Inv impactLoad symbolLoad ∧
    ∀ snapshot,
      (publishImpactSnapshot s.store s.impactSnapshotCache generation candidate).1 = some snapshot →
      s.store.marker = false ∧ impactLoad.eval s.store.graph = .ok snapshot := by
  have hleave := hinv.leaveImpact (i := i)
  by_cases hcurrent : isCurrent s.store generation = true
  · obtain ⟨hmarker, hlive⟩ := isCurrent_iff.mp hcurrent
    obtain ⟨snapshot, hpublish, hsnapshot⟩ :=
      publishImpactSnapshot_of_current s.impactSnapshotCache candidate hcurrent
    have hload : impactLoad.eval s.store.graph = .ok snapshot := by
      obtain hcache | rfl := hsnapshot
      · exact (hinv.impactCache _ snapshot hcache).current hmarker rfl
      · exact (hinv.impact i _ hreader).finish hmarker hlive
    rw [hpublish]
    refine ⟨{ hleave with impactCache := ?_ }, ?_⟩
    · rintro g snapshot' heq
      obtain ⟨rfl, rfl⟩ := Prod.mk.inj (Option.some.inj heq)
      exact witnessed_of_clean hinv.bounded hmarker hload
    · rintro snapshot' heq
      obtain rfl := Option.some.inj heq
      exact ⟨hmarker, hload⟩
  · rw [publishImpactSnapshot_of_not_current _ _ (by simpa using hcurrent)]
    exact ⟨{ hleave with impactCache := hinv.impactCache }, by simp⟩

lemma Inv.finishSymbols {generation : ℕ} {symbols : σ} (hinv : s.Inv impactLoad symbolLoad)
    (hreader : s.symbols i = .loading ⟨generation, .done (.ok symbols)⟩) :
    ({ s.setSymbols i .idle with
        symbolNameCache :=
          (finalizeSymbolNameCacheQuery s.store s.symbolNameCache generation symbols).2 } :
      CacheSystem γ ρ σ ι).Inv impactLoad symbolLoad ∧
    (isCurrent s.store generation = true → s.store.marker = false ∧
      symbolLoad.eval s.store.graph =
        .ok (finalizeSymbolNameCacheQuery s.store s.symbolNameCache generation symbols).1.symbols) := by
  have hidle : (s.setSymbols i .idle).Inv impactLoad symbolLoad := hinv.setSymbols (by simp)
  by_cases hcurrent : isCurrent s.store generation = true
  · obtain ⟨hmarker, hlive⟩ := isCurrent_iff.mp hcurrent
    obtain ⟨entry, hfinalize, hgeneration, hentry⟩ :=
      finalizeSymbolNameCacheQuery_of_current s.symbolNameCache symbols hcurrent
    have hload : symbolLoad.eval s.store.graph = .ok entry.symbols := by
      obtain hcache | rfl := hentry
      · exact (hinv.symbolCache entry hcache).current hmarker hgeneration.symm
      · exact (hinv.symbols i _ hreader).finish hmarker hlive
    rw [hfinalize]
    refine ⟨{ hidle with symbolCache := ?_ }, fun _ => ⟨hmarker, hload⟩⟩
    rintro entry' heq
    obtain rfl := Option.some.inj heq
    rw [hgeneration]
    exact witnessed_of_clean hinv.bounded hmarker hload
  · rw [finalizeSymbolNameCacheQuery_of_not_current _ _ (by simpa using hcurrent)]
    exact ⟨{ hidle with symbolCache := hinv.symbolCache }, fun h => absurd h hcurrent⟩

/-- **What a step keeps, and what it serves.** -/
theorem Inv.step {a : CacheAction γ ι} {served : Option (Served ρ σ)}
    (hinv : s.Inv impactLoad symbolLoad)
    (h : s.step impactLoad symbolLoad a = some (s', served)) :
    s'.Inv impactLoad symbolLoad ∧
      ∀ e, served = some e → e.Fresh impactLoad symbolLoad s.store := by
  cases a with
  | publish a =>
    simp only [CacheSystem.step] at h
    split_ifs at h with hpermitted
    cases hstep : s.publication.step a with
    | none => simp [hstep] at h
    | some publication =>
      simp only [hstep, Option.some.injEq, Prod.mk.injEq] at h
      obtain ⟨rfl, rfl⟩ := h
      exact ⟨hinv.afterPublish hpermitted hstep, by simp⟩
  | lockFill i =>
    simp only [CacheSystem.step] at h
    split at h
    · obtain ⟨rfl, rfl⟩ := Prod.mk.inj (Option.some.inj h)
      have hfill : (s.setImpact i .filling).Inv impactLoad symbolLoad := hinv.setImpact (by simp)
      exact ⟨{ hfill with }, by simp⟩
    · cases h
  | checkImpact i =>
    simp only [CacheSystem.step] at h
    split_ifs at h with hin
    split at h
    · split at h
      · obtain ⟨rfl, rfl⟩ := Prod.mk.inj (Option.some.inj h)
        exact ⟨hinv.leaveImpact, by simp⟩
      · rename_i snapshot hcheck
        obtain ⟨rfl, rfl⟩ := Prod.mk.inj (Option.some.inj h)
        obtain ⟨hmarker, hcache⟩ := checkImpactSnapshot_hit hcheck
        refine ⟨hinv.leaveImpact, ?_⟩
        rintro e heq
        obtain rfl := Option.some.inj heq
        exact ⟨hmarker, (hinv.impactCache _ _ hcache).current hmarker rfl⟩
      · rename_i generation hcheck
        obtain ⟨rfl, rfl⟩ := Prod.mk.inj (Option.some.inj h)
        obtain rfl := checkImpactSnapshot_miss hcheck
        refine ⟨hinv.setImpact ?_, by simp⟩
        rintro l heq
        obtain rfl := ImpactReader.loading.inj heq
        exact tracks_begin hinv.bounded (by simpa using hin)
    · cases h
  | readImpact i =>
    simp only [CacheSystem.step] at h
    split at h
    · rename_i generation next hreader
      obtain ⟨rfl, rfl⟩ := Prod.mk.inj (Option.some.inj h)
      refine ⟨hinv.setImpact ?_, by simp⟩
      rintro l heq
      obtain rfl := ImpactReader.loading.inj heq
      exact (hinv.impact i _ hreader).read
    · cases h
  | finishImpact i =>
    simp only [CacheSystem.step] at h
    split_ifs at h with hin
    split at h
    · rename_i generation candidate hreader
      obtain ⟨rfl, rfl⟩ := Prod.mk.inj (Option.some.inj h)
      obtain ⟨hkept, hserved⟩ := hinv.finishImpact hreader
      refine ⟨hkept, ?_⟩
      rintro e heq
      obtain ⟨snapshot, hsnapshot, rfl⟩ := Option.map_eq_some_iff.mp heq
      exact hserved snapshot hsnapshot
    · cases h
  | abandonImpact i =>
    simp only [CacheSystem.step] at h
    split at h
    · cases h
    · obtain ⟨rfl, rfl⟩ := Prod.mk.inj (Option.some.inj h)
      exact ⟨hinv.leaveImpact, by simp⟩
  | beginSymbols i =>
    simp only [CacheSystem.step] at h
    split_ifs at h with hin
    split at h
    · split at h
      · rename_i generation entry hbegin
        obtain ⟨rfl, rfl⟩ := Prod.mk.inj (Option.some.inj h)
        obtain ⟨hmarker, hcache, hgeneration⟩ := beginSymbolNameCacheQuery_hit hbegin
        refine ⟨hinv, ?_⟩
        rintro e heq
        obtain rfl := Option.some.inj heq
        exact ⟨hmarker, (hinv.symbolCache entry hcache).current hmarker hgeneration⟩
      · rename_i generation hbegin
        obtain ⟨rfl, rfl⟩ := Prod.mk.inj (Option.some.inj h)
        obtain rfl : generation = s.store.graphGeneration := by
          rw [← beginSymbolNameCacheQuery_fst s.symbolNameCache, hbegin]
        refine ⟨hinv.setSymbols ?_, by simp⟩
        rintro l heq
        obtain rfl := SymbolReader.loading.inj heq
        exact tracks_begin hinv.bounded (by simpa using hin)
    · cases h
  | readSymbols i =>
    simp only [CacheSystem.step] at h
    split at h
    · rename_i generation next hreader
      obtain ⟨rfl, rfl⟩ := Prod.mk.inj (Option.some.inj h)
      refine ⟨hinv.setSymbols ?_, by simp⟩
      rintro l heq
      obtain rfl := SymbolReader.loading.inj heq
      exact (hinv.symbols i _ hreader).read
    · cases h
  | finishSymbols i =>
    simp only [CacheSystem.step] at h
    split_ifs at h with hin
    split at h
    · rename_i generation symbols hreader
      obtain ⟨rfl, rfl⟩ := Prod.mk.inj (Option.some.inj h)
      obtain ⟨hkept, hserved⟩ := hinv.finishSymbols hreader
      refine ⟨hkept, ?_⟩
      rintro e heq
      split_ifs at heq with hcurrent
      obtain rfl := Option.some.inj heq
      exact hserved hcurrent
    · cases h
  | abandonSymbols i =>
    simp only [CacheSystem.step] at h
    split at h
    · cases h
    · obtain ⟨rfl, rfl⟩ := Prod.mk.inj (Option.some.inj h)
      exact ⟨hinv.setSymbols (by simp), by simp⟩

end CacheSystem

/-! ## The main result -/

/-- The states of a system of readers and publishers, without what is served. -/
def CacheSystem.next (impactLoad : Load γ (Except StoreError ρ))
    (symbolLoad : Load γ (Except StoreError σ)) (s : CacheSystem γ ρ σ ι) (a : CacheAction γ ι) :
    Option (CacheSystem γ ρ σ ι) :=
  (s.step impactLoad symbolLoad a).map Prod.fst

/-- **The graph caches are never stale.**  Whatever the readers and publishers of a store do, in any
order: when an impact snapshot is served, or symbol names that are in the cache from then on, there
is no marker, and a load of the graph as it is at that moment gives the same. -/
theorem graph_caches_fresh (impactLoad : Load γ (Except StoreError ρ))
    (symbolLoad : Load γ (Except StoreError σ)) {graph : γ} {marker : Bool} {generation : ℕ}
    (hle : generation ≤ u64Max) {actions : List (CacheAction γ ι)} {a : CacheAction γ ι}
    {s s' : CacheSystem γ ρ σ ι} {served : Served ρ σ}
    (hrun : run (CacheSystem.next impactLoad symbolLoad) (.fresh (opened graph marker generation))
      actions = some s)
    (hstep : s.step impactLoad symbolLoad a = some (s', some served)) :
    served.Fresh impactLoad symbolLoad s.store := by
  have hinv : s.Inv impactLoad symbolLoad := by
    refine (steps_of_run hrun).invariant (CacheSystem.inv_fresh (bounded_opened hle)) ?_
    rintro u b u' hu hnext
    obtain ⟨⟨_, _⟩, hstep, rfl⟩ := Option.map_eq_some_iff.mp hnext
    exact (hu.step hstep).1
  exact (hinv.step hstep).2 served rfl

/-- A load that reads the graph twice. -/
def twice : Load ℕ (Except StoreError (ℕ × ℕ)) :=
  .read fun first => .read fun second => .done (.ok (first, second))

/-- The symbol names are read before and after a publication, the impact snapshot after it. -/
def aroundPublication : List (CacheAction ℕ ℕ) :=
  [CacheAction.beginSymbols 0, .readSymbols 0] ++
    ((publishing 1 ++ [Action.completeGeneration, Action.release]).map CacheAction.publish ++
      [CacheAction.readSymbols 0, .finishSymbols 0, .lockFill 0, .checkImpact 0, .readImpact 0, .readImpact 0])

/-- The names are not stored, and the snapshot is of the graph that was published. -/
theorem graph_caches_fresh_example :
    ∃ s s' : CacheSystem ℕ (ℕ × ℕ) (ℕ × ℕ) ℕ,
      run (CacheSystem.next twice twice) (.fresh (opened 0 false 7)) aroundPublication = some s ∧
      s.symbolNameCache = none ∧
      s.step twice twice (.finishImpact 0) = some (s', some (.impact (1, 1))) ∧
      (Served.impact (1, 1) : Served (ℕ × ℕ) (ℕ × ℕ)).Fresh twice twice s.store := by
  have hle : 7 ≤ u64Max := by decide
  have hrun : ∃ s : CacheSystem ℕ (ℕ × ℕ) (ℕ × ℕ) ℕ,
      run (CacheSystem.next twice twice) (.fresh (opened 0 false 7)) aroundPublication = some s ∧
        s.symbolNameCache = none ∧
        ∃ s', s.step twice twice (.finishImpact 0) = some (s', some (.impact (1, 1))) :=
    ⟨_, rfl, rfl, _, rfl⟩
  obtain ⟨s, hrun, hnames, s', hstep⟩ := hrun
  exact ⟨s, s', hrun, hnames, hstep, graph_caches_fresh twice twice hle hrun hstep⟩

end Publication
end NestWeaver
