import Mathlib.Data.Finset.Card
import Mathlib.Data.Fintype.Basic
import NestWeaver.Framework.Agents

/-!
# Ejection of upstreams

`crates/nestweaver-federation/src/health.rs` and `upstream.rs`: failing queries eject upstreams, and
probes bring them back.  The fields of a health state are stored one after the other without a lock;
only the recount of the ejected upstreams, the decision and the mark-down run under a guard.

While an agent counts, nobody else ejects, so what it has counted is at least what is ejected among
the upstreams it has passed (`Knows`).
-/

set_option linter.all false

namespace NestWeaver
namespace Federation

open Transition

/-! ## The health of an upstream -/

def u32Size : ℕ := 4294967296

/-- `saturating_add` and `saturating_mul` of 64 bits. -/
def saturate64 (n : ℕ) : ℕ := min n 18446744073709551615

def ejectionBaseMs : ℕ := 30000
def ejectionCapMs : ℕ := 300000
def riseThreshold : ℕ := 2
def maxEjectionPercent : ℕ := 50
def ceilingTimeoutsToEject : ℕ := 2

def ejectionBackoffMs (ejectionCount : ℕ) : ℕ :=
  min (saturate64 (ejectionBaseMs * max ejectionCount 1)) ejectionCapMs

def ejectionCap (total maxPercent : ℕ) : ℕ := max (saturate64 (total * maxPercent) / 100) 1

def canEject (total currentlyEjected maxPercent : ℕ) : Bool :=
  currentlyEjected < ejectionCap total maxPercent

structure HealthState where
  healthy : Bool
  ejectionCount : ℕ
  rise : ℕ
  ejectedUntilMs : ℕ
  deriving DecidableEq, Repr

def HealthState.new : HealthState := ⟨true, 0, 0, 0⟩

/-! ## Stores -/

/-- One atomic operation on a field, with what it has the program do next. -/
inductive Store
  | setHealthy
  | setEjectionCount (count : ℕ)
  | setRise (rise : ℕ)
  | setEjectedUntil (ms : ℕ)
  /-- The count of ejections, and then the deadline by it. -/
  | escalate (nowMs : ℕ)
  /-- A successful probe is counted, and the upstream may be marked up. -/
  | addRise
  deriving DecidableEq, Repr

def markUp : List Store := [.setHealthy, .setEjectionCount 0, .setRise 0, .setEjectedUntil 0]

/-- What `mark_down` does after it has stored that the upstream is not healthy. -/
def afterMarkDown (nowMs : ℕ) : List Store := [.setRise 0, .escalate nowMs]

def applyProbeResult (nowMs : ℕ) (success : Bool) : List Store :=
  if success then [.addRise] else [.setRise 0, .escalate nowMs]

def Store.apply (h : HealthState) : Store → HealthState × List Store
  | .setHealthy => ({ h with healthy := true }, [])
  | .setEjectionCount count => ({ h with ejectionCount := count }, [])
  | .setRise rise => ({ h with rise }, [])
  | .setEjectedUntil ms => ({ h with ejectedUntilMs := ms }, [])
  | .escalate nowMs =>
    let count := (h.ejectionCount + 1) % u32Size
    ({ h with ejectionCount := count },
      [.setEjectedUntil (saturate64 (nowMs + ejectionBackoffMs count))])
  | .addRise =>
    let rise := (h.rise + 1) % u32Size
    ({ h with rise }, if riseThreshold ≤ rise then markUp else [])

/-! ## Queries, probes and recoveries -/

/-- The upstreams with their streaks of timeouts at the ceiling, and who has the guard. -/
structure Upstreams (n : ℕ) (ι : Type) where
  health : Fin n → HealthState
  streak : Fin n → ℕ
  guard : Option ι

inductive Phase (n : ℕ)
  | idle
  /-- Two timeouts at the ceiling: the streak is cleared, and then the upstream is ejected. -/
  | timedOut (u : Fin n)
  /-- `eject_with_cap` before it has the guard, in its recount, and when it has decided to eject. -/
  | waiting (u : Fin n)
  | counting (u : Fin n) (next ejected : ℕ)
  | marking (u : Fin n)
  /-- Stores to one upstream; then a guard is released. -/
  | storing (u : Fin n) (stores : List Store)
  deriving DecidableEq

inductive Act (n : ℕ)
  /-- A live query has failed. -/
  | fail (u : Fin n)
  | timeout (u : Fin n) (atCeiling : Bool)
  | success (u : Fin n)
  | probe (u : Fin n) (nowMs : ℕ) (success : Bool)
  /-- An administrative reset. -/
  | markUp (u : Fin n)
  /-- The next operation of what has been begun. -/
  | next (nowMs : ℕ)
  /-- A panic; the guard is poisoned, and taken all the same. -/
  | panic

variable {n : ℕ} {ι : Type} [DecidableEq ι]

namespace Upstreams

def init (n : ℕ) (ι : Type) : Upstreams n ι := ⟨fun _ => .new, fun _ => 0, none⟩

def setHealth (s : Upstreams n ι) (u : Fin n) (h : HealthState) : Upstreams n ι :=
  { s with health := Function.update s.health u h }

def setStreak (s : Upstreams n ι) (u : Fin n) (streak : ℕ) : Upstreams n ι :=
  { s with streak := Function.update s.streak u streak }

/-- Without the guard, if this agent has it. -/
def release (s : Upstreams n ι) (i : ι) : Upstreams n ι :=
  if s.guard = some i then { s with guard := none } else s

/-- The next operation. -/
def next (i : ι) (nowMs : ℕ) (s : Upstreams n ι) : Phase n → Option (Upstreams n ι × Phase n)
  | .idle => none
  | .timedOut u => some (s.setStreak u 0, .waiting u)
  | .waiting u => if s.guard = none then some ({ s with guard := some i }, .counting u 0 0) else none
  | .counting u next ejected =>
    if h : next < n then
      some (s, .counting u (next + 1) (if (s.health ⟨next, h⟩).healthy then ejected else ejected + 1))
    else if canEject n ejected maxEjectionPercent then some (s, .marking u)
    else some (s, .storing u [])
  | .marking u =>
    some (s.setHealth u { s.health u with healthy := false }, .storing u (afterMarkDown nowMs))
  | .storing _ [] => some (s.release i, .idle)
  | .storing u (store :: stores) =>
    some (s.setHealth u (store.apply (s.health u)).1,
      .storing u ((store.apply (s.health u)).2 ++ stores))

def act (i : ι) (a : Act n) (s : Upstreams n ι) (p : Phase n) :
    Option (Upstreams n ι × Phase n) :=
  match a with
  | .next nowMs => s.next i nowMs p
  | .panic => some (s.release i, .idle)
  | .fail u => if p = .idle then some (s, .waiting u) else none
  | .timeout u atCeiling =>
    if p = .idle then
      if atCeiling then
        let streak := (s.streak u + 1) % u32Size
        some (s.setStreak u streak, if ceilingTimeoutsToEject ≤ streak then .timedOut u else .idle)
      else some (s, .idle)
    else none
  | .success u => if p = .idle then some (s.setStreak u 0, .idle) else none
  | .probe u nowMs success =>
    if p = .idle then some (s, .storing u (applyProbeResult nowMs success)) else none
  | .markUp u => if p = .idle then some (s, .storing u Federation.markUp) else none

/-- The upstreams that are out of rotation. -/
def ejected (s : Upstreams n ι) : Finset (Fin n) :=
  Finset.univ.filter fun u => (s.health u).healthy = false

/-! ## What the counting agent knows -/

/-- The agent at the guard: what it has counted bounds what is ejected. -/
def Knows (i : ι) (s : Upstreams n ι) : Phase n → Prop
  | .counting _ next ejected =>
    s.guard = some i ∧ next ≤ n ∧ (s.ejected.filter (·.val < next)).card ≤ ejected
  | .marking _ => s.guard = some i ∧ s.ejected.card < ejectionCap n maxEjectionPercent
  | _ => True

variable {s s' : Upstreams n ι} {i j : ι} {p p' q : Phase n} {u : Fin n} {a : Act n}

omit [DecidableEq ι] in
lemma mem_ejected : u ∈ s.ejected ↔ (s.health u).healthy = false := by
  simp [ejected]

omit [DecidableEq ι] in
/-- An agent that has the guard keeps what it knows while no more is ejected. -/
lemma Knows.mono (h : Knows j s q) (hejected : s'.ejected ⊆ s.ejected)
    (hguard : s.guard = some j → s'.guard = some j) : Knows j s' q := by
  cases q with
  | counting u next count =>
    obtain ⟨hj, hnext, hcount⟩ := h
    refine ⟨hguard hj, hnext, le_trans (Finset.card_le_card ?_) hcount⟩
    exact Finset.filter_subset_filter _ hejected
  | marking u =>
    obtain ⟨hj, hlt⟩ := h
    exact ⟨hguard hj, lt_of_le_of_lt (Finset.card_le_card hejected) hlt⟩
  | _ => exact True.intro

omit [DecidableEq ι] in
lemma ejected_setHealth {h : HealthState} (hh : h.healthy = false → (s.health u).healthy = false) :
    (s.setHealth u h).ejected ⊆ s.ejected := by
  intro v hv
  rw [mem_ejected] at hv ⊢
  by_cases huv : v = u
  · subst huv
    exact hh (by simpa [setHealth] using hv)
  · simpa [setHealth, huv] using hv

omit [DecidableEq ι] in
lemma healthy_apply {store : Store} {h : HealthState}
    (hh : (store.apply h).1.healthy = false) : h.healthy = false := by
  cases store with
  | setHealthy => simp [Store.apply] at hh
  | _ => exact hh

lemma guard_release (hij : j ≠ i) (hj : s.guard = some j) : (s.release i).guard = some j := by
  have hne : s.guard ≠ some i := by simpa [hj] using hij
  rw [release, if_neg hne, hj]

lemma ejected_release : (s.release i).ejected = s.ejected := by
  unfold release
  split_ifs
  · rfl
  · rfl

/-- A recount that has passed one more upstream. -/
lemma card_filter_succ (k : ℕ) (hk : k < n) (A : Finset (Fin n)) :
    (A.filter (·.val < k + 1)).card ≤
      (A.filter (·.val < k)).card + if ⟨k, hk⟩ ∈ A then 1 else 0 := by
  by_cases hmem : (⟨k, hk⟩ : Fin n) ∈ A
  · rw [if_pos hmem]
    refine (Finset.card_le_card ?_).trans (Finset.card_insert_le ⟨k, hk⟩ _)
    intro v hv
    obtain ⟨hv, hlt⟩ := Finset.mem_filter.mp hv
    rw [Finset.mem_insert, Finset.mem_filter]
    by_cases heq : v = ⟨k, hk⟩
    · exact .inl heq
    · have hne : v.val ≠ k := fun h => heq (Fin.ext h)
      exact .inr ⟨hv, by omega⟩
  · rw [if_neg hmem, Nat.add_zero]
    refine Finset.card_le_card fun v hv => ?_
    obtain ⟨hvA, hlt⟩ := Finset.mem_filter.mp hv
    have hne : v.val ≠ k := by
      intro heq
      have hsame : v = ⟨k, hk⟩ := Fin.ext heq
      exact hmem (hsame ▸ hvA)
    exact Finset.mem_filter.mpr ⟨hvA, by omega⟩

/-- The cap holds, and what the other agents know is kept. -/
def Kept (i : ι) (s s' : Upstreams n ι) (p' : Phase n) : Prop :=
  s'.ejected.card ≤ ejectionCap n maxEjectionPercent ∧ Knows i s' p' ∧
    ∀ j q, j ≠ i → Knows j s q → Knows j s' q

omit [DecidableEq ι] in
/-- A step after which nothing more is ejected. -/
lemma kept_of_subset (hcap : s.ejected.card ≤ ejectionCap n maxEjectionPercent)
    (hejected : s'.ejected ⊆ s.ejected)
    (hguard : ∀ j, j ≠ i → s.guard = some j → s'.guard = some j) (hp' : Knows i s' p') :
    Kept i s s' p' :=
  ⟨(Finset.card_le_card hejected).trans hcap, hp', fun j _ hj hq => hq.mono hejected (hguard j hj)⟩

lemma kept_next {nowMs : ℕ} (hcap : s.ejected.card ≤ ejectionCap n maxEjectionPercent)
    (hp : Knows i s p) (h : s.next i nowMs p = some (s', p')) : Kept i s s' p' := by
  cases p with
  | idle => cases h
  | timedOut u =>
    cases h
    exact kept_of_subset hcap subset_rfl (fun _ _ => id) True.intro
  | waiting u =>
    simp only [Upstreams.next] at h
    split_ifs at h with hfree
    cases h
    refine kept_of_subset hcap subset_rfl (fun j _ hj => ?_) ⟨rfl, Nat.zero_le n, by simp⟩
    rw [hfree] at hj
    cases hj
  | counting u k count =>
    obtain ⟨hguard, hk, hcount⟩ := hp
    simp only [Upstreams.next] at h
    split_ifs at h with hlt hhealthy hcan
    · cases h
      refine kept_of_subset hcap subset_rfl (fun _ _ => id) ⟨hguard, hlt, ?_⟩
      have hnot : (⟨k, hlt⟩ : Fin n) ∉ s.ejected := by simp [mem_ejected, hhealthy]
      have hsucc := card_filter_succ k hlt s.ejected
      rw [if_neg hnot] at hsucc
      omega
    · cases h
      refine kept_of_subset hcap subset_rfl (fun _ _ => id) ⟨hguard, hlt, ?_⟩
      have hmem : (⟨k, hlt⟩ : Fin n) ∈ s.ejected := by simp [mem_ejected, hhealthy]
      have hsucc := card_filter_succ k hlt s.ejected
      rw [if_pos hmem] at hsucc
      omega
    · cases h
      refine kept_of_subset hcap subset_rfl (fun _ _ => id) ⟨hguard, ?_⟩
      have hall : s.ejected.filter (·.val < k) = s.ejected := by
        refine Finset.filter_true_of_mem fun v _ => ?_
        have := v.isLt
        omega
      rw [hall] at hcount
      exact lt_of_le_of_lt hcount (of_decide_eq_true hcan)
    · cases h
      exact kept_of_subset hcap subset_rfl (fun _ _ => id) True.intro
  | marking u =>
    obtain ⟨hguard, hlt⟩ := hp
    cases h
    refine ⟨?_, True.intro, fun j q hj hq => ?_⟩
    · have hsubset : (s.setHealth u { s.health u with healthy := false }).ejected ⊆
          insert u s.ejected := by
        intro v hv
        by_cases huv : v = u
        · exact Finset.mem_insert.mpr (.inl huv)
        · refine Finset.mem_insert_of_mem ?_
          rw [mem_ejected] at hv ⊢
          simpa [setHealth, huv] using hv
      have hcard := (Finset.card_le_card hsubset).trans (Finset.card_insert_le u _)
      omega
    · -- nobody else has the guard
      have hother : s.guard ≠ some j := by simpa [hguard] using hj.symm
      cases q with
      | counting v k count => exact absurd hq.1 hother
      | marking v => exact absurd hq.1 hother
      | _ => exact True.intro
  | storing u stores =>
    cases stores with
    | nil =>
      cases h
      exact kept_of_subset hcap ejected_release.subset (fun j hj => guard_release hj) True.intro
    | cons store stores =>
      cases h
      exact kept_of_subset hcap (ejected_setHealth healthy_apply) (fun _ _ => id) True.intro

lemma sound_act : Agents.Sound (act (n := n) (ι := ι))
    (fun s => s.ejected.card ≤ ejectionCap n maxEjectionPercent) Knows := by
  intro i a s p s' p' hcap hp h
  have hsame : Knows i s p' → s = s' → Kept i s s' p' := by
    rintro hp' rfl
    exact kept_of_subset hcap subset_rfl (fun _ _ => id) hp'
  cases a with
  | next nowMs => exact kept_next hcap hp h
  | panic =>
    cases h
    exact kept_of_subset hcap ejected_release.subset (fun j hj => guard_release hj) True.intro
  | fail u =>
    simp only [act] at h
    split_ifs at h
    cases h
    exact hsame True.intro rfl
  | timeout u atCeiling =>
    simp only [act] at h
    split_ifs at h
    · cases h
      exact kept_of_subset hcap subset_rfl (fun _ _ => id) True.intro
    · cases h
      exact kept_of_subset hcap subset_rfl (fun _ _ => id) True.intro
    · cases h
      exact hsame True.intro rfl
  | success u =>
    simp only [act] at h
    split_ifs at h
    cases h
    exact kept_of_subset hcap subset_rfl (fun _ _ => id) True.intro
  | probe u nowMs success =>
    simp only [act] at h
    split_ifs at h
    cases h
    exact hsame True.intro rfl
  | markUp u =>
    simp only [act] at h
    split_ifs at h
    cases h
    exact hsame True.intro rfl

end Upstreams

/-- **The cap on ejections.**  Whatever queries, probes and recoveries do, operation by operation and
in any order, at most half of the upstreams are ever out of rotation, or one. -/
theorem ejected_le_cap {w : Agents ι (Upstreams n ι) (Phase n)}
    (h : Steps (Agents.step Upstreams.act) ⟨.init n ι, fun _ => .idle⟩ w) :
    w.shared.ejected.card ≤ max 1 (n * 50 / 100) := by
  have hinit : Agents.Holds (fun s => s.ejected.card ≤ ejectionCap n maxEjectionPercent)
      Upstreams.Knows (⟨.init n ι, fun _ => .idle⟩ : Agents ι (Upstreams n ι) (Phase n)) := by
    refine ⟨?_, fun _ => True.intro⟩
    have hnone : (Upstreams.init n ι).ejected = ∅ := by
      simp [Upstreams.ejected, Upstreams.init, HealthState.new]
    simp [hnone]
  have hcap := (Upstreams.sound_act.steps hinit h).shared
  have hle : ejectionCap n maxEjectionPercent ≤ max 1 (n * 50 / 100) := by
    simp only [ejectionCap, maxEjectionPercent, saturate64]
    omega
  exact hcap.trans hle

/-- Two queries fail on two of three upstreams at once: one agent decides after the other. -/
def bothFail : List (ℕ × Act 3) :=
  [(0, .fail 0), (1, .fail 1), (0, .next 5), (0, .next 5), (0, .next 5), (0, .next 5),
    (0, .next 5), (0, .next 5), (0, .next 5), (0, .next 5), (0, .next 5), (0, .next 5),
    (1, .next 6), (1, .next 6), (1, .next 6), (1, .next 6), (1, .next 6), (1, .next 6)]

/-- The first upstream is ejected, and the second one stays. -/
theorem ejected_le_cap_bothFail :
    ∃ w : Agents ℕ (Upstreams 3 ℕ) (Phase 3),
      run (Agents.step Upstreams.act) ⟨.init 3 ℕ, fun _ => .idle⟩ bothFail = some w ∧
        w.shared.ejected = {0} ∧ w.shared.ejected.card ≤ max 1 (3 * 50 / 100) := by
  have hrun : ∃ w : Agents ℕ (Upstreams 3 ℕ) (Phase 3),
      run (Agents.step Upstreams.act) ⟨.init 3 ℕ, fun _ => .idle⟩ bothFail = some w ∧
        w.shared.ejected = {0} := ⟨_, rfl, by decide +kernel⟩
  obtain ⟨w, hw, heq⟩ := hrun
  exact ⟨w, hw, heq, ejected_le_cap (steps_of_run hw)⟩

end Federation
end NestWeaver
