import Mathlib.Data.List.Basic
import Mathlib.Logic.Function.Basic
import NestWeaver.Framework.Transition

/-!
# The circuit breaker

`crates/nestweaver-engine/src/circuit_breaker.rs`: after some failures calls to a host are rejected
for a while, and then one call probes the host.  A call has two steps, its admission and its outcome,
and time passes in between.

The flag for the probe is also cleared by the outcomes of calls that were admitted before the circuit
opened.  If none of them ends while a probe is in flight, there is never a second probe
(`singleProbe_of_timely`).
-/

set_option linter.all false

namespace NestWeaver
namespace CircuitBreaker

open Transition

/-! ## One host -/

def failureThreshold : ℕ := 5

/-- Times are in milliseconds. -/
def failureWindow : ℕ := 60000

def cooldown : ℕ := 60000

inductive CircuitState
  | closed | «open» | halfOpen
  deriving DecidableEq, Repr

inductive Admission
  | closed
  /-- With the time at which the circuit was opened. -/
  | probe (openedAt : ℕ)
  deriving DecidableEq, Repr

structure HostState where
  failures : List ℕ
  openedAt : Option ℕ
  probeInFlight : Bool
  deriving DecidableEq, Repr

def HostState.new : HostState := ⟨[], none, false⟩

def HostState.state (hs : HostState) (now : ℕ) : CircuitState :=
  match hs.openedAt with
  | none => .closed
  | some opened => if cooldown ≤ now - opened then .halfOpen else .open

def HostState.recordFailure (hs : HostState) (now : ℕ) : HostState :=
  let failures := hs.failures.filter (now - · < failureWindow) ++ [now]
  if hs.openedAt.isSome ∨ failureThreshold ≤ failures.length then
    { failures, openedAt := some now, probeInFlight := false }
  else { hs with failures }

def HostState.recordSuccess (_ : HostState) : HostState := ⟨[], none, false⟩

/-- `try_admit`. -/
def HostState.tryAdmit (hs : HostState) (now : ℕ) : HostState × Option Admission :=
  match hs.state now with
  | .closed => (hs, some .closed)
  | .open => (hs, none)
  | .halfOpen =>
    if hs.probeInFlight then (hs, none)
    else ({ hs with probeInFlight := true }, hs.openedAt.map .probe)

def HostState.releaseNeutralProbe (hs : HostState) : Admission → HostState
  | .closed => hs
  | .probe openedAt => if hs.openedAt = some openedAt then { hs with probeInFlight := false } else hs

/-! ## Calls -/

/-- How the operation of a call ends.  A panic is recorded by the guard. -/
inductive Outcome
  | success | hostFailure | neutral | panic
  deriving DecidableEq, Repr

/-- `call_classified`, once the operation has ended. -/
def HostState.finish (hs : HostState) (now : ℕ) (admission : Admission) : Outcome → HostState
  | .success => hs.recordSuccess
  | .hostFailure => hs.recordFailure now
  | .neutral => hs.releaseNeutralProbe admission
  | .panic => hs.recordFailure now

/-- A call that was admitted and has not ended. -/
structure Call where
  id : ℕ
  host : String
  admission : Admission
  deriving DecidableEq, Repr

/-- The clock, the hosts (a host that has no entry is as new) and the calls in flight. -/
structure World where
  now : ℕ
  hosts : String → HostState
  calls : List Call
  nextId : ℕ

inductive Action
  | wait (ms : ℕ)
  | admitCall (host : String)
  | finish (id : ℕ) (outcome : Outcome)
  deriving DecidableEq, Repr

def World.empty : World := ⟨0, fun _ => .new, [], 0⟩

def World.begin (w : World) (host : String) : World :=
  let admitted := (w.hosts host).tryAdmit w.now
  { w with
    hosts := Function.update w.hosts host admitted.1
    calls := w.calls ++ (admitted.2.map fun admission => ⟨w.nextId, host, admission⟩).toList
    nextId := w.nextId + 1 }

def World.finish (w : World) (call : Call) (outcome : Outcome) : World :=
  { w with
    hosts := Function.update w.hosts call.host
      ((w.hosts call.host).finish w.now call.admission outcome)
    calls := w.calls.erase call }

def step (w : World) : Action → Option World
  | .wait ms => some { w with now := w.now + ms }
  | .admitCall host => some (w.begin host)
  | .finish id outcome => (w.calls.find? (·.id = id)).map (w.finish · outcome)

/-! ## Probes -/

def Call.IsProbe (call : Call) : Prop := call.admission ≠ .closed

instance (call : Call) : Decidable call.IsProbe := inferInstanceAs (Decidable (_ ≠ _))

/-- The probes of a host that are in flight. -/
def World.probes (w : World) (host : String) : List Call :=
  w.calls.filter fun call => call.host = host ∧ call.IsProbe

/-- No probe was admitted while another one of its host was in flight. -/
def World.SingleProbe (w : World) : Prop := ∀ host, (w.probes host).length ≤ 1

/-- No call that was admitted in the closed state is counted while a probe of its host is in flight. -/
def Timely (w : World) : Action → Prop
  | .finish id outcome => ∀ call ∈ w.calls, call.id = id → call.admission = .closed →
    outcome ≠ .neutral → w.probes call.host = []
  | _ => True

instance (w : World) (a : Action) : Decidable (Timely w a) := by
  cases a <;> unfold Timely <;> infer_instance

variable {w w' : World} {a : Action} {host : String}

/-- A probe in flight is the only one of its host, and the host has not been touched since. -/
def World.Guarded (w : World) : Prop :=
  ∀ host, w.probes host = [] ∨ ∃ call, w.probes host = [call] ∧
    (w.hosts host).probeInFlight = true ∧ ∃ opened, (w.hosts host).openedAt = some opened ∧
      call.admission = .probe opened ∧ cooldown ≤ w.now - opened

lemma World.Guarded.singleProbe (h : w.Guarded) : w.SingleProbe := by
  intro host
  obtain hnil | ⟨call, hcall, -⟩ := h host
  · rw [hnil]
    exact Nat.zero_le _
  · rw [hcall]
    exact Nat.le_refl _

lemma probes_begin (w : World) (host host' : String) :
    (w.begin host).probes host' = w.probes host' ++
      ((((w.hosts host).tryAdmit w.now).2.map fun admission =>
        (⟨w.nextId, host, admission⟩ : Call)).toList.filter
          fun call => call.host = host' ∧ call.IsProbe) := by
  rw [World.probes, World.begin, List.filter_append]
  rfl

lemma tryAdmit_of_inFlight {hs : HostState} {now opened : ℕ} (hflag : hs.probeInFlight = true)
    (hopened : hs.openedAt = some opened) (hcool : cooldown ≤ now - opened) :
    hs.tryAdmit now = (hs, none) := by
  rw [HostState.tryAdmit, HostState.state, hopened]
  simp [hcool, hflag]

/-- What a probe leaves at its host. -/
lemma tryAdmit_probe {hs : HostState} {now opened : ℕ}
    (h : (hs.tryAdmit now).2 = some (.probe opened)) :
    (hs.tryAdmit now).1.probeInFlight = true ∧ (hs.tryAdmit now).1.openedAt = some opened ∧
      cooldown ≤ now - opened := by
  unfold HostState.tryAdmit HostState.state at h ⊢
  cases hopened : hs.openedAt with
  | none => simp [hopened] at h
  | some t =>
    simp only [hopened] at h ⊢
    by_cases hcool : cooldown ≤ now - t
    · by_cases hflag : hs.probeInFlight = true
      · simp [hcool, hflag] at h
      · simp only [hcool, if_true, hflag] at h ⊢
        obtain rfl : t = opened := by simpa using h
        exact ⟨rfl, rfl, hcool⟩
    · simp [hcool] at h

/-- An admission adds a probe only when none is in flight. -/
lemma World.Guarded.begin (h : w.Guarded) (host : String) : (w.begin host).Guarded := by
  intro host'
  rw [probes_begin]
  by_cases hhost : host' = host
  · subst hhost
    have hhosts : (w.begin host').hosts host' = ((w.hosts host').tryAdmit w.now).1 :=
      Function.update_self _ _ _
    rw [hhosts]
    obtain hnil | ⟨call, hcall, hflag, opened, hopened, hadmission, hcool⟩ := h host'
    · rw [hnil, List.nil_append]
      cases hadmit : ((w.hosts host').tryAdmit w.now).2 with
      | none => exact .inl rfl
      | some admission =>
        cases admission with
        | closed => exact .inl (by simp [Call.IsProbe])
        | probe opened =>
          refine .inr ⟨⟨w.nextId, host', .probe opened⟩, by simp [Call.IsProbe], ?_⟩
          have hprobe := tryAdmit_probe hadmit
          exact ⟨hprobe.1, opened, hprobe.2.1, rfl, hprobe.2.2⟩
    · -- the probe in flight keeps others out
      rw [tryAdmit_of_inFlight hflag hopened hcool]
      exact .inr ⟨call, by simpa using hcall, hflag, opened, hopened, hadmission, hcool⟩
  · have hhosts : (w.begin host).hosts host' = w.hosts host' := Function.update_of_ne hhost _ _
    have hnone : (((w.hosts host).tryAdmit w.now).2.map fun admission =>
        (⟨w.nextId, host, admission⟩ : Call)).toList.filter
          (fun call => call.host = host' ∧ call.IsProbe) = [] := by
      rw [List.filter_eq_nil_iff]
      intro call hmem
      obtain ⟨admission, -, rfl⟩ := Option.map_eq_some_iff.mp (Option.mem_toList.mp hmem)
      simp [Ne.symm hhost]
    rw [hhosts, hnone, List.append_nil]
    exact h host'

lemma filter_erase_of_not {p : Call → Bool} {call : Call} (calls : List Call)
    (hcall : p call = false) : (calls.erase call).filter p = calls.filter p := by
  rw [← List.erase_filter]
  refine List.erase_of_not_mem fun hmem => ?_
  rw [(List.mem_filter.mp hmem).2] at hcall
  cases hcall

lemma filter_erase_of_single {p : Call → Bool} {call : Call} {calls : List Call}
    (hsingle : calls.filter p = [call]) : (calls.erase call).filter p = [] := by
  rw [← List.erase_filter, hsingle, List.erase_cons_head]

/-- An outcome that is in time leaves the other probes alone. -/
lemma World.Guarded.finish (h : w.Guarded) {call : Call} (hmem : call ∈ w.calls) {outcome : Outcome}
    (htimely : call.admission = .closed → outcome ≠ .neutral → w.probes call.host = []) :
    (w.finish call outcome).Guarded := by
  intro host
  by_cases hprobe : call.host = host ∧ call.IsProbe
  · -- the probe of this host ends
    have hin : call ∈ w.probes host := List.mem_filter.mpr ⟨hmem, by simpa using hprobe⟩
    obtain hnil | ⟨other, hother, -⟩ := h host
    · rw [hnil] at hin
      cases hin
    · have heq : call = other := by
        rw [hother] at hin
        exact List.mem_singleton.mp hin
      subst heq
      exact .inl (filter_erase_of_single hother)
  · have hsame : (w.finish call outcome).probes host = w.probes host :=
      filter_erase_of_not _ (by simpa using hprobe)
    rw [hsame]
    obtain hnil | ⟨other, hother, hflag, opened, hopened, hadmission, hcool⟩ := h host
    · exact .inl hnil
    · refine .inr ⟨other, hother, ?_⟩
      have hhosts : (w.finish call outcome).hosts host = w.hosts host := by
        by_cases hhost : host = call.host
        · subst hhost
          have hclosed : call.admission = .closed := by
            by_contra hne
            exact hprobe ⟨rfl, hne⟩
          have hneutral : outcome = .neutral := by
            by_contra hne
            rw [htimely hclosed hne] at hother
            cases hother
          change Function.update w.hosts call.host
            ((w.hosts call.host).finish w.now call.admission outcome) call.host = _
          rw [Function.update_self, hclosed, hneutral]
          rfl
        · exact Function.update_of_ne hhost _ _
      rw [hhosts]
      exact ⟨hflag, opened, hopened, hadmission, hcool⟩

lemma World.Guarded.step (h : w.Guarded) (htimely : Timely w a)
    (hstep : CircuitBreaker.step w a = some w') : w'.Guarded := by
  cases a with
  | wait ms =>
    obtain rfl := Option.some.inj hstep
    intro host
    obtain hnil | ⟨call, hcall, hflag, opened, hopened, hadmission, hcool⟩ := h host
    · exact .inl hnil
    · exact .inr ⟨call, hcall, hflag, opened, hopened, hadmission, by simp only; omega⟩
  | admitCall host =>
    obtain rfl := Option.some.inj hstep
    exact h.begin host
  | finish id outcome =>
    obtain ⟨call, hcall, rfl⟩ := Option.map_eq_some_iff.mp hstep
    have hmem := List.mem_of_find?_eq_some hcall
    have hid : call.id = id := by simpa using List.find?_some hcall
    exact h.finish hmem (htimely call hmem hid)

/-- **One probe.**  In a run in which no call that was admitted in the closed state is counted while
a probe of its host is in flight, no second probe is admitted while one is in flight. -/
theorem singleProbe_of_timely (h : Steps (guarded step Timely) .empty w) : w.SingleProbe := by
  have hempty : World.empty.Guarded := fun host => .inl rfl
  refine (h.invariant hempty fun u a u' hu hstep => ?_).singleProbe
  obtain ⟨htimely, hstep⟩ := guarded_eq_some.mp hstep
  exact hu.step htimely hstep

/-- Six calls are admitted, five of them open the circuit, and a probe is admitted when it has cooled
down. -/
def probedRun : List Action :=
  List.replicate 6 (Action.admitCall "host") ++ (List.range 5).map (Action.finish · .hostFailure) ++
    [Action.wait cooldown, .admitCall "host"]

/-- Without a late outcome there is one probe. -/
theorem singleProbe_of_timely_probedRun :
    ∃ w, run (guarded step Timely) .empty probedRun = some w ∧ w.SingleProbe := by
  have hsome : (run (guarded step Timely) .empty probedRun).isSome := by decide
  obtain ⟨w, hw⟩ := Option.isSome_iff_exists.mp hsome
  exact ⟨w, hw, singleProbe_of_timely (steps_of_run hw)⟩

/-- The sixth call fails while the probe is in flight, and a second probe is admitted. -/
theorem lateFailure_not_singleProbe : ¬∀ w, Steps step .empty w → w.SingleProbe := by
  intro h
  have htwo : (run step .empty (probedRun ++ [Action.finish 5 .hostFailure, .wait cooldown,
      .admitCall "host"])).any fun w => (w.probes "host").length = 2 := by decide
  obtain ⟨w, hw, hlength⟩ := (Option.any_eq_true _ _).mp htwo
  have hle := h w (steps_of_run hw) "host"
  rw [of_decide_eq_true hlength] at hle
  omega

end CircuitBreaker
end NestWeaver
