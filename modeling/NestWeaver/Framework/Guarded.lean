import Mathlib.Algebra.Ring.Nat
import Mathlib.Data.List.Basic
import Mathlib.Order.Basic

/-!
# Guarded computations

A computation with unsigned numbers of 64 bits fails with an error, or panics where an index is out of range;
and where a sum is too large, it panics if overflow is checked, and otherwise goes on with what is left of the
sum.  On its way it reserves room.

A computation is safe if it does not panic, reserves no more than a bound at a time, and has a result as it
should be (`Run.Safe`).  Each step has a rule, and the rules compose (`Run.Safe.bind`).
-/

set_option linter.all false

namespace NestWeaver
namespace Guarded

inductive Failure
  | error (text : String)
  | panicked
  deriving DecidableEq, Repr

/-- What becomes of a sum that is too large. -/
inductive Overflow
  | checked | wrapping
  deriving DecidableEq, Repr

/-- A result, with the room that was reserved on the way. -/
structure Run (α : Type) where
  reserved : List ℕ
  outcome : Except Failure α

namespace Run

variable {α β : Type}

def bind (r : Run α) (f : α → Run β) : Run β :=
  match r.outcome with
  | .ok a => ⟨r.reserved ++ (f a).reserved, (f a).outcome⟩
  | .error e => ⟨r.reserved, .error e⟩

instance : Monad Run where
  pure a := ⟨[], .ok a⟩
  bind := bind

/-! ## Steps -/

/-- What may fail with the text of an error. -/
def ofExcept (e : Except String α) : Run α :=
  match e with
  | .ok a => ⟨[], .ok a⟩
  | .error text => ⟨[], .error (.error text)⟩

def ofOption (o : Option α) (text : String) : Run α :=
  match o with
  | some a => ⟨[], .ok a⟩
  | none => ⟨[], .error (.error text)⟩

def ensure (p : Prop) [Decidable p] (text : String) : Run Unit :=
  if p then ⟨[], .ok ()⟩ else ⟨[], .error (.error text)⟩

def reserve (n : ℕ) : Run Unit := ⟨[n], .ok ()⟩

/-- A number that is computed. -/
def number : Overflow → ℕ → Run ℕ
  | .checked, n => if n < 2 ^ 64 then ⟨[], .ok n⟩ else ⟨[], .error .panicked⟩
  | .wrapping, n => ⟨[], .ok (n % 2 ^ 64)⟩

def add (mode : Overflow) (a b : ℕ) : Run ℕ := number mode (a + b)

def mul (mode : Overflow) (a b : ℕ) : Run ℕ := number mode (a * b)

/-- The elements from one index to another. -/
def slice (l : List α) (start stop : ℕ) : Run (List α) :=
  if start ≤ stop ∧ stop ≤ l.length then ⟨[], .ok ((l.take stop).drop start)⟩ else ⟨[], .error .panicked⟩

/-! ## Safety -/

/-- No panic, no room beyond the bound, and a result that is as it should be. -/
structure Safe (bound : ℕ) (post : α → Prop) (r : Run α) : Prop where
  reserved : ∀ n ∈ r.reserved, n ≤ bound
  not_panicked : r.outcome ≠ .error .panicked
  result : ∀ a, r.outcome = .ok a → post a

variable {bound : ℕ} {post : α → Prop} {post' : β → Prop} {r : Run α} {f : α → Run β} {mode : Overflow}

@[simp] lemma bind_eq (r : Run α) (f : α → Run β) : r >>= f = r.bind f := rfl

lemma bind_of_ok {a : α} (h : r.outcome = .ok a) : (r >>= f).outcome = (f a).outcome := by
  rw [bind_eq, bind, h]

lemma bind_of_error {e : Failure} (h : r.outcome = .error e) : (r >>= f).outcome = .error e := by
  rw [bind_eq, bind, h]

/-- **The rule of composition.** -/
lemma Safe.bind (h : r.Safe bound post) (hf : ∀ a, post a → (f a).Safe bound post') :
    (r >>= f).Safe bound post' := by
  cases hr : r.outcome with
  | error e =>
    have heq : r >>= f = ⟨r.reserved, .error e⟩ := by rw [bind_eq, Run.bind, hr]
    rw [heq]
    refine ⟨h.reserved, fun hpanic => h.not_panicked ?_, fun a ha => by cases ha⟩
    rw [hr]
    injection hpanic with he
    rw [he]
  | ok a =>
    have heq : r >>= f = ⟨r.reserved ++ (f a).reserved, (f a).outcome⟩ := by rw [bind_eq, Run.bind, hr]
    have hsafe := hf a (h.result a hr)
    rw [heq]
    refine ⟨fun n hn => ?_, hsafe.not_panicked, hsafe.result⟩
    obtain hn | hn := List.mem_append.mp hn
    · exact h.reserved n hn
    · exact hsafe.reserved n hn

lemma Safe.mono {post₂ : α → Prop} (h : r.Safe bound post) (hpost : ∀ a, post a → post₂ a) :
    r.Safe bound post₂ := ⟨h.reserved, h.not_panicked, fun a ha => hpost a (h.result a ha)⟩

lemma safe_pure {a : α} (h : post a) : (pure a : Run α).Safe bound post := by
  refine ⟨fun n hn => absurd hn List.not_mem_nil, fun hpanic => ?_, fun a' ha => ?_⟩
  · cases hpanic
  · cases ha
    exact h

lemma safe_error (text : String) : (⟨[], .error (.error text)⟩ : Run α).Safe bound post := by
  refine ⟨fun n hn => absurd hn List.not_mem_nil, fun hpanic => ?_, fun a ha => ?_⟩
  · cases hpanic
  · cases ha

lemma safe_ofExcept {e : Except String α} (h : ∀ a, e = .ok a → post a) : (ofExcept e).Safe bound post := by
  cases e with
  | error text => exact safe_error text
  | ok a => exact safe_pure (h a rfl)

lemma safe_ofOption {o : Option α} {text : String} (h : ∀ a, o = some a → post a) :
    (ofOption o text).Safe bound post := by
  cases o with
  | none => exact safe_error text
  | some a => exact safe_pure (h a rfl)

lemma safe_ensure {p : Prop} [Decidable p] {text : String} {post : Unit → Prop} (h : p → post ()) :
    (ensure p text).Safe bound post := by
  by_cases hp : p
  · rw [ensure, if_pos hp]
    exact safe_pure (h hp)
  · rw [ensure, if_neg hp]
    exact safe_error text

lemma safe_reserve {n : ℕ} {post : Unit → Prop} (hn : n ≤ bound) (h : post ()) :
    (reserve n).Safe bound post := by
  refine ⟨fun m hm => ?_, fun hpanic => ?_, fun _ _ => h⟩
  · rw [List.mem_singleton.mp hm]
    exact hn
  · cases hpanic

lemma number_of_lt {n : ℕ} (hn : n < 2 ^ 64) : number mode n = pure n := by
  cases mode with
  | checked =>
    rw [number, if_pos hn]
    rfl
  | wrapping =>
    rw [number, Nat.mod_eq_of_lt hn]
    rfl

/-! ### Rules for a step and what follows -/

lemma ensure_then {p : Prop} [Decidable p] {text : String} {f : Unit → Run β}
    (h : p → (f ()).Safe bound post') : (ensure p text >>= f).Safe bound post' :=
  have hensure : (ensure p text).Safe bound fun _ => p := safe_ensure fun hp => hp
  hensure.bind fun _ hp => h hp

lemma reserve_then {n : ℕ} {f : Unit → Run β} (hn : n ≤ bound) (h : (f ()).Safe bound post') :
    (reserve n >>= f).Safe bound post' :=
  have hreserve : (reserve n).Safe bound fun _ => True := safe_reserve hn trivial
  hreserve.bind fun _ _ => h

lemma number_then {n : ℕ} {f : ℕ → Run β} (hn : n < 2 ^ 64) (h : (f n).Safe bound post') :
    (number mode n >>= f).Safe bound post' := by
  have hnumber : (number mode n).Safe bound (· = n) := by
    rw [number_of_lt hn]
    exact safe_pure rfl
  refine hnumber.bind fun m hm => ?_
  rw [hm]
  exact h

lemma slice_then {l : List α} {start stop : ℕ} {f : List α → Run β} (hstart : start ≤ stop)
    (hstop : stop ≤ l.length) (h : (f ((l.take stop).drop start)).Safe bound post') :
    (slice l start stop >>= f).Safe bound post' := by
  have hslice : (slice l start stop).Safe bound (· = (l.take stop).drop start) := by
    rw [slice, if_pos ⟨hstart, hstop⟩]
    exact safe_pure rfl
  refine hslice.bind fun part hpart => ?_
  rw [hpart]
  exact h

lemma ofOption_then {o : Option α} {text : String} (h : ∀ a, o = some a → (f a).Safe bound post') :
    (ofOption o text >>= f).Safe bound post' :=
  have hoption : (ofOption o text).Safe bound (o = some ·) := safe_ofOption fun _ ha => ha
  hoption.bind h

lemma ofExcept_then {e : Except String α} (h : ∀ a, e = .ok a → (f a).Safe bound post') :
    (ofExcept e >>= f).Safe bound post' :=
  have hexcept : (ofExcept e).Safe bound (e = .ok ·) := safe_ofExcept fun _ ha => ha
  hexcept.bind h

/-! ## Overflow -/

/-- Where overflow is checked, it panics. -/
lemma number_checked {n : ℕ} (hn : 2 ^ 64 ≤ n) : (number .checked n).outcome = .error .panicked := by
  rw [number, if_neg (by omega)]

lemma number_outcome {n : ℕ} (hn : n < 2 ^ 64) : (number mode n).outcome = .ok n := by
  rw [number_of_lt hn]
  rfl

/-- Otherwise the number that is left goes on. -/
lemma number_wrapping (n : ℕ) : (number .wrapping n).outcome = .ok (n % 2 ^ 64) := rfl

lemma slice_panics {l : List α} {start stop : ℕ} (h : stop < start) :
    (slice l start stop).outcome = .error .panicked := by
  rw [slice, if_neg fun hsound => absurd hsound.1 (by omega)]

lemma ensure_outcome {p : Prop} [Decidable p] {text : String} (hp : p) : (ensure p text).outcome = .ok () := by
  rw [ensure, if_pos hp]

lemma slice_outcome {l : List α} {start stop : ℕ} (hstart : start ≤ stop) (hstop : stop ≤ l.length) :
    (slice l start stop).outcome = .ok ((l.take stop).drop start) := by
  rw [slice, if_pos ⟨hstart, hstop⟩]

/-- Between a front and a back. -/
lemma slice_mid {l front mid back : List α} {start stop : ℕ} (hl : l = front ++ (mid ++ back))
    (hstart : start = front.length) (hstop : stop = start + mid.length) :
    (slice l start stop).outcome = .ok mid := by
  have hle : stop ≤ l.length := by
    rw [hl, List.length_append, List.length_append]
    omega
  have htake : l.take stop = front ++ mid := by
    rw [hl, ← List.append_assoc]
    exact List.take_left' (by rw [List.length_append]; omega)
  rw [slice_outcome (by omega) hle, htake, List.drop_left' hstart.symm]

lemma ensure_fails {p : Prop} [Decidable p] {text : String} (hp : ¬p) :
    (ensure p text).outcome = .error (.error text) := by
  rw [ensure, if_neg hp]

lemma reserve_outcome {n : ℕ} : (reserve n).outcome = .ok () := rfl

lemma ofExcept_outcome {a : α} : (ofExcept (.ok a)).outcome = .ok a := rfl

lemma ofOption_outcome {a : α} {text : String} : (ofOption (some a) text).outcome = .ok a := rfl

end Run

end Guarded
end NestWeaver
