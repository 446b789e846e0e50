import Mathlib.Order.Basic
import NestWeaver.Store.Publication.Runs

/-!
# A clean generation names one graph

The settled generation of a store is the one its graph was last published under.  A step leaves it as
it is or raises it by two (`Progress`), and while it stays, the graph can only turn from untouched
(`Pristine`) to changed, never back.  So two states without a marker that show the same generation
show the same graph.
-/

set_option linter.all false

namespace NestWeaver
namespace Publication

open Transition

variable {γ : Type} {sys sys' sys'' : System γ} {a : Action γ}

/-! ## The settled generation -/

def GraphStore.settled (s : GraphStore γ) : ℕ :=
  if s.marker then s.canonical else s.sidecar.getD 0

/-- Nobody can have changed the graph since the settled generation was published. -/
def System.Pristine (sys : System γ) : Prop :=
  sys.store.marker = false ∨ sys.store.generationBase = none ∨
    ∃ p, sys.publisher = some p ∧ p.stage = .reserved ∧ p.lease.reservation = .fresh ∧
      p.mutated = false

/-- The owner has removed the marker and not completed. -/
def System.Retired (sys : System γ) : Prop := ∃ p, sys.publisher = some p ∧ p.stage = .retired

/-- A run has published, or it has kept the settled generation and undone nothing. -/
def Progress (sys sys' : System γ) : Prop :=
  sys.store.settled + 2 ≤ sys'.store.settled ∨
    sys'.store.settled = sys.store.settled ∧ (sys'.Retired → sys.Retired) ∧
      (sys'.Pristine → sys.Pristine ∧ sys'.store.graph = sys.store.graph)

lemma Progress.refl (sys : System γ) : Progress sys sys := .inr ⟨rfl, id, fun h => ⟨h, rfl⟩⟩

lemma Progress.trans (h : Progress sys sys') (h' : Progress sys' sys'') : Progress sys sys'' := by
  obtain hlt | ⟨heq, hretired, hback⟩ := h
  · obtain hlt' | ⟨heq', -⟩ := h'
    · exact .inl (by omega)
    · exact .inl (by omega)
  · obtain hlt' | ⟨heq', hretired', hback'⟩ := h'
    · exact .inl (by omega)
    · refine .inr ⟨heq'.trans heq, fun h => hretired (hretired' h), fun hpristine => ?_⟩
      obtain ⟨hmid, hgraph'⟩ := hback' hpristine
      obtain ⟨hfirst, hgraph⟩ := hback hmid
      exact ⟨hfirst, hgraph'.trans hgraph⟩

lemma settled_of_marker {s : GraphStore γ} (h : s.marker = true) : s.settled = s.canonical :=
  if_pos h

lemma settled_of_clean {s : GraphStore γ} (h : s.marker = false) :
    s.sidecar.getD 0 = s.settled := by
  simp [GraphStore.settled, h]

lemma pristine_of_clean (h : sys.store.marker = false) : sys.Pristine := .inl h

lemma progress_reopen (hinv : sys.Inv) : Progress sys ⟨sys.store.reopen, none⟩ := by
  obtain ⟨g, hg, -⟩ := hinv.exists_sidecar
  by_cases hmarker : sys.store.marker = true
  · -- the process counts from what is on disk, and nobody can tell what has changed
    have hreopen := reopen_of_marker hmarker hg
    have hsettled : sys.store.reopen.settled = g := by
      rw [hreopen, settled_of_marker (by exact hmarker), GraphStore.canonical_of_base rfl]
    have hpristine : ¬ System.Pristine ⟨sys.store.reopen, none⟩ := by
      simp [System.Pristine, hreopen, hmarker]
    have hsame : g = sys.store.canonical ∨ g = sys.store.canonical + 2 := by
      cases hbase : sys.store.generationBase with
      | none =>
        rw [GraphStore.canonical_of_none hbase]
        exact .inl (Option.some.inj (hg.symm.trans (hinv.of_none hbase)))
      | some c =>
        rw [GraphStore.canonical_of_base hbase]
        obtain h | h := hinv.of_base c hbase
        · exact .inl (Option.some.inj (hg.symm.trans h))
        · exact .inr (Option.some.inj (hg.symm.trans h))
    rw [Progress, hsettled, settled_of_marker hmarker]
    obtain heq | heq := hsame
    · exact .inr ⟨heq, by simp [System.Retired], fun h => absurd h hpristine⟩
    · exact .inl heq.ge
  · have hmarker : sys.store.marker = false := by simpa using hmarker
    have hreopen := reopen_of_clean hmarker hg
    refine .inr ⟨?_, by simp [System.Retired], fun _ => ⟨pristine_of_clean hmarker, ?_⟩⟩
    · simp [hreopen, GraphStore.settled, hmarker]
    · rw [hreopen]

/-- **What a step does to the settled generation and to the graph under it.** -/
theorem Effect.progress (hinv : sys.Inv) (h : Effect sys a sys') : Progress sys sys' := by
  have hpub := hinv.publisher
  cases h with
  | crash => exact progress_reopen hinv
  | establish hstage hnext =>
    -- the base is what is on disk
    have hclean := hinv.of_clean
    unfold Progress System.Pristine System.Retired
    grind -ring -linarith -ac [GraphStore.settled, GraphStore.canonical, inRetirement_some]
  | @retire s p outcome next hstage hnext =>
    -- the generation two above the base shows from now on
    have hp := hpub p rfl
    simp only [Publisher.Inv, hstage] at hp
    obtain ⟨hbase, -, hmarker, hsidecar, -⟩ := hp
    have hbefore : s.settled = p.canonical :=
      (settled_of_marker hmarker).trans (GraphStore.canonical_of_base hbase)
    have hafter : GraphStore.settled { s with marker := false } = p.canonical + 2 := by
      rw [← settled_of_clean rfl, hsidecar, Option.getD_some]
    exact .inl (by rw [hbefore, hafter])
  | @failClean s p hstage =>
    -- the marker may or may not be gone
    have hp := hpub p rfl
    simp only [Publisher.Inv, hstage] at hp
    unfold Progress System.Pristine System.Retired
    grind -ring -linarith -ac [GraphStore.settled, GraphStore.canonical]
  | @withdraw s p outcome next hstage hnext =>
    -- there is no base, so the graph is the published one
    have hp := hpub p rfl
    simp only [Publisher.Inv, hstage] at hp
    have hsidecar := hinv.of_none hp.1
    unfold Progress System.Pristine System.Retired
    grind -ring -linarith -ac [GraphStore.settled, GraphStore.canonical]
  | _ =>
    unfold Progress System.Pristine System.Retired
    grind -ring -linarith -ac [Publisher.Inv, GraphStore.canonical, GraphStore.settled]

/-! ## Runs -/

/-- Some sequence of sound steps leads from one state to the other. -/
def SoundRun : System γ → System γ → Prop :=
  Relation.ReflTransGen fun sys sys' => ∃ a, Sound sys a ∧ sys.step a = some sys'

/-- The states of the sound runs of a store. -/
def Reached (generation : ℕ) (sys : System γ) : Prop :=
  generation ≤ u64Max ∧ ∃ graph marker, SoundRun (opened graph marker generation) sys

lemma SoundRun.inv (h : SoundRun sys sys') (hinv : sys.Inv) : sys'.Inv := by
  induction h with
  | refl => exact hinv
  | tail _ hstep ih =>
    obtain ⟨a, hsound, hstep⟩ := hstep
    exact ih.effect (effect_of_step ih hsound hstep)

lemma SoundRun.progress (h : SoundRun sys sys') (hinv : sys.Inv) : Progress sys sys' := by
  induction h with
  | refl => exact .refl sys
  | @tail mid last hrun hstep ih =>
    obtain ⟨a, hsound, hstep⟩ := hstep
    have hmid := SoundRun.inv hrun hinv
    exact ih.trans ((effect_of_step hmid hsound hstep).progress hmid)

lemma SoundRun.of_step (hsound : Sound sys a) (h : sys.step a = some sys') : SoundRun sys sys' :=
  .single ⟨a, hsound, h⟩

lemma soundRun_of_run {actions : List (Action γ)} (hsound : ∀ a ∈ actions, ∀ sys, Sound sys a)
    (h : run System.step sys actions = some sys') : SoundRun sys sys' := by
  induction actions generalizing sys with
  | nil =>
    obtain rfl : sys = sys' := Option.some.inj h
    exact .refl
  | cons a actions ih =>
    rw [run, List.foldlM_cons] at h
    obtain ⟨mid, hmid, hrest⟩ := Option.bind_eq_some_iff.mp h
    have hfirst := SoundRun.of_step (hsound a List.mem_cons_self sys) hmid
    exact hfirst.trans (ih (fun b hb => hsound b (List.mem_cons_of_mem _ hb)) hrest)

lemma Reached.inv {generation : ℕ} (h : Reached generation sys) : sys.Inv := by
  obtain ⟨hle, graph, marker, hrun⟩ := h
  exact hrun.inv (inv_opened hle)

lemma Progress.settled_le (h : Progress sys sys') : sys.store.settled ≤ sys'.store.settled := by
  obtain h | ⟨h, -⟩ := h
  · omega
  · exact h.ge

/-- The sidecar is at the settled generation, or one publication ahead of it. -/
lemma System.Inv.sidecar_eq (hinv : sys.Inv) :
    sys.store.sidecar = some sys.store.settled ∨ sys.store.sidecar = some (sys.store.settled + 2) := by
  by_cases hmarker : sys.store.marker = true
  · rw [settled_of_marker hmarker]
    cases hbase : sys.store.generationBase with
    | none =>
      rw [GraphStore.canonical_of_none hbase]
      exact .inl (hinv.of_none hbase)
    | some c =>
      rw [GraphStore.canonical_of_base hbase]
      exact hinv.of_base c hbase
  · obtain ⟨g, hg, -⟩ := hinv.exists_sidecar
    have hmarker : sys.store.marker = false := by simpa using hmarker
    rw [← settled_of_clean hmarker, hg]
    exact .inl rfl

lemma System.Inv.sidecar_of_clean (hinv : sys.Inv) (hmarker : sys.store.marker = false) :
    sys.store.sidecar = some sys.store.settled := by
  obtain ⟨g, hg, -⟩ := hinv.exists_sidecar
  rw [← settled_of_clean hmarker, hg, Option.getD_some]

/-- Nothing has been saved that is not published. -/
lemma System.Inv.sidecar_of_pristine (hinv : sys.Inv) (h : sys.Pristine) :
    sys.store.sidecar = some sys.store.settled := by
  by_cases hmarker : sys.store.marker = true
  · rw [settled_of_marker hmarker]
    obtain hclean | hbase | ⟨p, hp, hstage, hfresh, -⟩ := h
    · exact absurd hmarker (by simp [hclean])
    · rw [GraphStore.canonical_of_none hbase]
      exact hinv.of_none hbase
    · have hpinv := hinv.publisher p hp
      simp only [Publisher.Inv, hstage] at hpinv
      rw [GraphStore.canonical_of_base hpinv.1]
      exact hpinv.2.2.2 hfresh
  · exact hinv.sidecar_of_clean (by simpa using hmarker)

lemma System.Inv.live_of_clean (hinv : sys.Inv) (hmarker : sys.store.marker = false) :
    sys.store.settled ≤ sys.store.graphGeneration ∧
      sys.store.graphGeneration ≤ sys.store.settled + 1 := by
  have hsidecar := hinv.sidecar_of_clean hmarker
  by_cases hin : sys.InRetirement
  · obtain ⟨p, hp, hstage⟩ := hin
    have hpinv := hinv.publisher p hp
    have hlive : sys.store.sidecar = some (p.canonical + 2) ∧
        sys.store.graphGeneration = p.canonical + 2 := by
      obtain hstage | hstage := hstage
      · simp only [Publisher.Inv, hstage] at hpinv
        exact hpinv.2.2.2
      · simp only [Publisher.Inv, hstage] at hpinv
        exact hpinv.2.2
    have heq := Option.some.inj (hsidecar.symm.trans hlive.1)
    omega
  · obtain ⟨heq, hlow, hhigh⟩ := hinv.of_clean hmarker hin
    have heq := Option.some.inj (hsidecar.symm.trans heq)
    omega

/-- Nothing that is saved is above what is settled in a later state without a marker. -/
lemma SoundRun.sidecar_le {g : ℕ} (h : SoundRun sys sys') (hinv : sys.Inv)
    (hg : sys.store.sidecar = some g) (hmarker : sys'.store.marker = false) :
    g ≤ sys'.store.settled := by
  obtain hlt | ⟨heq, -, hback⟩ := h.progress hinv
  · obtain h | h := hinv.sidecar_eq
    · obtain rfl := Option.some.inj (hg.symm.trans h)
      omega
    · obtain rfl := Option.some.inj (hg.symm.trans h)
      exact hlt
  · have hpristine := (hback (pristine_of_clean hmarker)).1
    obtain rfl := Option.some.inj (hg.symm.trans (hinv.sidecar_of_pristine hpristine))
    exact heq.ge

/-- **A generation names one graph**, be it read from disk or from the live counter. -/
theorem SoundRun.graph_eq (h : SoundRun sys sys') (hinv : sys.Inv)
    (hmarker : sys.store.marker = false) (hmarker' : sys'.store.marker = false)
    (hsame : sys.store.sidecar = sys'.store.sidecar ∨
      sys.store.graphGeneration = sys'.store.graphGeneration) :
    sys.store.graph = sys'.store.graph := by
  have hinv' := h.inv hinv
  obtain hlt | ⟨-, -, hback⟩ := h.progress hinv
  · exfalso
    obtain hsame | hsame := hsame
    · rw [hinv.sidecar_of_clean hmarker, hinv'.sidecar_of_clean hmarker'] at hsame
      have := Option.some.inj hsame
      omega
    · have hlive := hinv.live_of_clean hmarker
      have hlive' := hinv'.live_of_clean hmarker'
      omega
  · exact (hback (pristine_of_clean hmarker')).2.symm

/-! ## Snapshots -/

/-- A call that reads the clean published generation, from one state of a run to a later one. -/
def SnapshotCall (start finish : System γ) (generation : ℕ) : Prop :=
  ∃ leaseBefore markerBefore read leaseAfter : System γ,
    SoundRun start leaseBefore ∧ SoundRun leaseBefore markerBefore ∧ SoundRun markerBefore read ∧
      SoundRun read leaseAfter ∧ SoundRun leaseAfter finish ∧
      GraphStore.cleanPublishedGenerationSnapshot leaseBefore.store markerBefore.store read.store
        leaseAfter.store finish.store = .ok generation

lemma snapshot_eq_ok {leaseBefore markerBefore read leaseAfter markerAfter : GraphStore γ}
    {generation g : ℕ} (hread : read.sidecar = some g)
    (h : GraphStore.cleanPublishedGenerationSnapshot leaseBefore markerBefore read leaseAfter
      markerAfter = .ok generation) :
    markerBefore.marker = false ∧ markerAfter.marker = false ∧ g = generation := by
  simp only [GraphStore.cleanPublishedGenerationSnapshot, hread, bind, Except.bind] at h
  split_ifs at h with hlease hmarker hafter
  simp only [Bool.or_eq_true, not_or, Bool.not_eq_true] at hafter
  exact ⟨by simpa using hmarker, hafter.2, Except.ok.inj h⟩

lemma SnapshotCall.run {generation : ℕ} (h : SnapshotCall sys sys' generation) :
    SoundRun sys sys' := by
  obtain ⟨a, b, c, d, hstart, hab, hbc, hcd, hfinish, -⟩ := h
  exact (((hstart.trans hab).trans hbc).trans hcd).trans hfinish

/-- What a call has seen when it begins and when it ends. -/
lemma SnapshotCall.settled {generation : ℕ} (h : SnapshotCall sys sys' generation)
    (hinv : sys.Inv) :
    sys'.store.marker = false ∧ generation ≤ sys'.store.settled ∧
      ∃ mid, SoundRun sys mid ∧ mid.store.marker = false ∧ mid.store.settled ≤ generation := by
  obtain ⟨lease, marker, read, lease', hstart, hlease, hread, hlease', hfinish, hok⟩ := h
  have hmarkerRun := hstart.trans hlease
  have hmarkerInv := SoundRun.inv hmarkerRun hinv
  have hreadInv := SoundRun.inv (hmarkerRun.trans hread) hinv
  obtain ⟨g, hg, -⟩ := hreadInv.exists_sidecar
  obtain ⟨hbefore, hafter, rfl⟩ := snapshot_eq_ok hg hok
  refine ⟨hafter, ?_, marker, hmarkerRun, hbefore, ?_⟩
  · exact SoundRun.sidecar_le (hlease'.trans hfinish) hreadInv hg hafter
  · have hle := (SoundRun.progress hread hmarkerInv).settled_le
    obtain h | h := hreadInv.sidecar_eq
    · obtain rfl := Option.some.inj (hg.symm.trans h)
      exact hle
    · obtain rfl := Option.some.inj (hg.symm.trans h)
      omega

/-! ## The main result -/

/-- A completion is of a publication whose successors were available, and comes to the clean one. -/
lemma complete_available (hinv : sys.Inv) (h : sys.step .completeGeneration = some sys') :
    sys.Retired ∧ ∃ p, sys.publisher = some p ∧ p.canonical + 2 ≤ u64Max ∧
      sys'.store.sidecar = some (p.canonical + 2) ∧
      sys'.store.graphGeneration = p.canonical + 2 := by
  have hsound : Sound sys .completeGeneration := True.intro
  cases effect_of_step hinv hsound h with
  | @complete s p hstage =>
    have hp := hinv.publisher p rfl
    simp only [Publisher.Inv, hstage] at hp
    obtain ⟨-, hle, -, hsidecar, hlive⟩ := hp
    exact ⟨⟨p, rfl, hstage⟩, p, rfl, hle, hsidecar, hlive⟩
  | fail hstage => simp at hstage
  | surrender ha => simp at ha

/-- The removal of the marker of a publication makes the clean generation visible. -/
lemma settled_lt_of_retire {outcome : IoOutcome} (hinv : sys.Inv)
    (h : sys.step (.retireMarker outcome) = some sys') (hchanged : outcome.changed = true) :
    sys.store.settled + 2 ≤ sys'.store.settled := by
  have hsound : Sound sys (.retireMarker outcome) := True.intro
  cases effect_of_step hinv hsound h with
  | @retire s p _ next hstage hnext =>
    have hp := hinv.publisher p rfl
    simp only [Publisher.Inv, hstage] at hp
    obtain ⟨hbase, -, hmarker, hsidecar, -⟩ := hp
    rw [settled_of_marker hmarker, GraphStore.canonical_of_base hbase, ← settled_of_clean rfl,
      hsidecar, Option.getD_some]
  | keep hstage => simp [IoOutcome.changed] at hchanged
  | fail hstage => simp at hstage
  | surrender ha => simp at ha

/-- Between two calls with one result no publication becomes visible, and the graph stays. -/
lemma snapshots_bracket {start before after finish x x' : System γ} {generation : ℕ}
    (hinv : start.Inv) (hbefore : SnapshotCall start before generation)
    (hbetween : SoundRun before x) (hsound : Sound x a) (hstep : x.step a = some x')
    (hrest : SoundRun x' after) (hafter : SnapshotCall after finish generation) :
    x.store.graph = before.store.graph ∧ x'.store.graph = before.store.graph ∧
      (∀ outcome, a = .retireMarker outcome → outcome.changed = false) ∧
      (before.publisher = none → a ≠ .completeGeneration) := by
  have hinvBefore := hbefore.run.inv hinv
  have hinvX := hbetween.inv hinvBefore
  have hstepRun := SoundRun.of_step hsound hstep
  have hinvX' := hstepRun.inv hinvX
  have hinvAfter := hrest.inv hinvX'
  obtain ⟨hmarker, hle, -⟩ := hbefore.settled hinv
  obtain ⟨-, -, mid, hmid, hmidMarker, hmidLe⟩ := hafter.settled hinvAfter
  have hrest' := hrest.trans hmid
  -- all generations from the end of the first call to the probe of the second are the same
  have h₁ := hbetween.progress hinvBefore
  have h₂ := hstepRun.progress hinvX
  have h₃ := SoundRun.progress hrest' hinvX'
  have hle₁ := h₁.settled_le
  have hle₂ := h₂.settled_le
  have hle₃ := h₃.settled_le
  obtain hlt | ⟨-, -, hback₃⟩ := h₃
  · omega
  obtain ⟨hpristine', hgraph₃⟩ := hback₃ (pristine_of_clean hmidMarker)
  obtain hlt | ⟨heq₂, -, hback₂⟩ := h₂
  · omega
  obtain ⟨hpristine, hgraph₂⟩ := hback₂ hpristine'
  obtain hlt | ⟨-, hretired, hback₁⟩ := h₁
  · omega
  obtain ⟨-, hgraph₁⟩ := hback₁ hpristine
  refine ⟨hgraph₁, hgraph₂.trans hgraph₁, ?_, ?_⟩
  · rintro outcome rfl
    by_contra hchanged
    have hlt := settled_lt_of_retire hinvX hstep (by simpa using hchanged)
    omega
  · rintro hnone rfl
    obtain ⟨p, hp, -⟩ := hretired (complete_available hinvX hstep).1
    simp [hnone] at hp

/-- A publication of a graph, up to the removal of its marker. -/
def publishing (graph : γ) : List (Action γ) :=
  [.acquire, .preflight, .establishMarker .done, .reserveGeneration, .mutate graph,
    .saveGeneration .done, .publishCleanGeneration, .retireMarker .done]

end Publication
end NestWeaver
