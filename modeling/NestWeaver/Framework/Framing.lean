import Mathlib.Algebra.Ring.Nat
import Mathlib.Data.List.Forall2

/-!
# Length-prefixed records

A file of records, each behind its length in four bytes, little-endian.  Reading stops at the first
record that is not complete, is longer than a bound, or does not decode (`scan`), so that what is
written after a torn tail is hidden.  Whole records are read back in front of anything
(`scan_frames`), every file is whole records and a rest where reading stops (`scan_spec`), and a part
of a write leaves whole records and a torn one (`scan_prefix`).
-/

set_option linter.all false

namespace NestWeaver
namespace Framing

/-! ## Lengths -/

def u32le (n : ℕ) : List UInt8 :=
  [.ofNat n, .ofNat (n / 2 ^ 8), .ofNat (n / 2 ^ 16), .ofNat (n / 2 ^ 24)]

def readU32le (b₀ b₁ b₂ b₃ : UInt8) : ℕ :=
  b₀.toNat + 2 ^ 8 * b₁.toNat + 2 ^ 16 * b₂.toNat + 2 ^ 24 * b₃.toNat

lemma readU32le_u32le {n : ℕ} (h : n < 2 ^ 32) :
    readU32le (.ofNat n) (.ofNat (n / 2 ^ 8)) (.ofNat (n / 2 ^ 16)) (.ofNat (n / 2 ^ 24)) = n := by
  simp only [readU32le, UInt8.toNat_ofNat']
  omega

lemma u32le_readU32le (b₀ b₁ b₂ b₃ : UInt8) : u32le (readU32le b₀ b₁ b₂ b₃) = [b₀, b₁, b₂, b₃] := by
  have h₀ := b₀.toNat_lt
  have h₁ := b₁.toNat_lt
  have h₂ := b₂.toNat_lt
  have h₃ := b₃.toNat_lt
  simp only [u32le, readU32le, List.cons.injEq, and_true, ← UInt8.toNat_inj, UInt8.toNat_ofNat']
  omega

/-! ## One record -/

def frame (body : List UInt8) : List UInt8 := u32le body.length ++ body

lemma length_frame (body : List UInt8) : (frame body).length = 4 + body.length := by
  rw [frame, List.length_append]
  rfl

/-- The first record, if it is complete and not too long, and what follows it. -/
def takeFrame (maxBytes : ℕ) : List UInt8 → Option (List UInt8 × List UInt8)
  | b₀ :: b₁ :: b₂ :: b₃ :: rest =>
    let length := readU32le b₀ b₁ b₂ b₃
    if maxBytes < length ∨ rest.length < length then none
    else some (rest.take length, rest.drop length)
  | _ => none

variable {maxBytes : ℕ}

lemma takeFrame_frame {body : List UInt8} (hmax : body.length ≤ maxBytes)
    (hlength : body.length < 2 ^ 32) (rest : List UInt8) :
    takeFrame maxBytes (frame body ++ rest) = some (body, rest) := by
  have hread := readU32le_u32le hlength
  have hfits : ¬(maxBytes < body.length ∨ (body ++ rest).length < body.length) := by
    rw [List.length_append]
    omega
  simp only [frame, u32le, List.cons_append, List.nil_append, takeFrame, hread]
  rw [if_neg hfits, List.take_left, List.drop_left]

lemma takeFrame_eq_some {bytes body rest : List UInt8}
    (h : takeFrame maxBytes bytes = some (body, rest)) :
    bytes = frame body ++ rest ∧ body.length ≤ maxBytes ∧ body.length < 2 ^ 32 := by
  match bytes, h with
  | b₀ :: b₁ :: b₂ :: b₃ :: tail, h =>
    rw [takeFrame] at h
    by_cases hfits : maxBytes < readU32le b₀ b₁ b₂ b₃ ∨ tail.length < readU32le b₀ b₁ b₂ b₃
    · rw [if_pos hfits] at h
      cases h
    · rw [if_neg hfits] at h
      obtain ⟨rfl, rfl⟩ := Prod.mk.inj (Option.some.inj h)
      have hlength : (tail.take (readU32le b₀ b₁ b₂ b₃)).length = readU32le b₀ b₁ b₂ b₃ := by
        rw [List.length_take]
        omega
      have hlt : readU32le b₀ b₁ b₂ b₃ < 2 ^ 32 := by
        have h₀ := b₀.toNat_lt
        have h₁ := b₁.toNat_lt
        have h₂ := b₂.toNat_lt
        have h₃ := b₃.toNat_lt
        rw [readU32le]
        omega
      refine ⟨?_, by omega, by omega⟩
      rw [frame, hlength, u32le_readU32le, List.append_assoc, List.take_append_drop]
      rfl

/-- A part of a record is not a record. -/
lemma takeFrame_torn {body bytes rest : List UInt8} (hlength : body.length < 2 ^ 32)
    (h : frame body = bytes ++ rest) (hrest : rest ≠ []) : takeFrame maxBytes bytes = none := by
  by_contra hsome
  obtain ⟨⟨body', rest'⟩, htake⟩ := Option.ne_none_iff_exists'.mp hsome
  obtain ⟨rfl, -, hlength'⟩ := takeFrame_eq_some htake
  have hread : takeFrame (max body.length body'.length) (frame body) = some (body, []) := by
    rw [← List.append_nil (frame body)]
    exact takeFrame_frame (Nat.le_max_left ..) hlength []
  rw [h, List.append_assoc, takeFrame_frame (Nat.le_max_right ..) hlength'] at hread
  have hnil := (Prod.mk.inj (Option.some.inj hread)).2
  exact hrest (List.append_eq_nil_iff.mp hnil).2

/-! ## A file of records -/

variable {α : Type*} {decode : List UInt8 → Option α}

/-- Read records until one is torn, too long or undecodable: what they decode to, and the rest. -/
def scanFuel (maxBytes : ℕ) (decode : List UInt8 → Option α) :
    ℕ → List UInt8 → List α × List UInt8
  | 0, bytes => ([], bytes)
  | fuel + 1, bytes =>
    match takeFrame maxBytes bytes with
    | none => ([], bytes)
    | some (body, rest) =>
      match decode body with
      | none => ([], bytes)
      | some a =>
        let (as, tail) := scanFuel maxBytes decode fuel rest
        (a :: as, tail)

/-- Every record takes a byte at least, so this is enough fuel. -/
def scan (maxBytes : ℕ) (decode : List UInt8 → Option α) (bytes : List UInt8) :
    List α × List UInt8 :=
  scanFuel maxBytes decode bytes.length bytes

lemma scanFuel_eq {n m : ℕ} {bytes : List UInt8} (hn : bytes.length ≤ n) (hm : bytes.length ≤ m) :
    scanFuel maxBytes decode n bytes = scanFuel maxBytes decode m bytes := by
  induction n generalizing m bytes with
  | zero =>
    obtain rfl : bytes = [] := List.eq_nil_of_length_eq_zero (by omega)
    cases m <;> rfl
  | succ n ih =>
    cases m with
    | zero =>
      obtain rfl : bytes = [] := List.eq_nil_of_length_eq_zero (by omega)
      rfl
    | succ m =>
      rw [scanFuel, scanFuel]
      match htake : takeFrame maxBytes bytes with
      | none => rfl
      | some (body, rest) =>
        dsimp only
        cases decode body with
        | none => rfl
        | some a =>
          have hbytes := congrArg List.length (takeFrame_eq_some htake).1
          rw [List.length_append, length_frame] at hbytes
          dsimp only
          rw [ih (m := m) (by omega) (by omega)]

/-- Where the first record cannot be read, nothing is. -/
lemma scan_of_takeFrame_none {bytes : List UInt8} (h : takeFrame maxBytes bytes = none) :
    scan maxBytes decode bytes = ([], bytes) := by
  unfold scan
  cases bytes.length with
  | zero => rfl
  | succ n => rw [scanFuel, h]

lemma scan_of_decode_none {bytes body rest : List UInt8}
    (h : takeFrame maxBytes bytes = some (body, rest)) (hdecode : decode body = none) :
    scan maxBytes decode bytes = ([], bytes) := by
  unfold scan
  cases bytes.length with
  | zero => rfl
  | succ n =>
    rw [scanFuel, h]
    dsimp only
    rw [hdecode]

lemma scan_cons {bytes body rest : List UInt8} {a : α}
    (h : takeFrame maxBytes bytes = some (body, rest)) (hdecode : decode body = some a) :
    scan maxBytes decode bytes =
      (a :: (scan maxBytes decode rest).1, (scan maxBytes decode rest).2) := by
  have hlength := congrArg List.length (takeFrame_eq_some h).1
  rw [List.length_append, length_frame] at hlength
  obtain ⟨n, hn⟩ : ∃ n, bytes.length = n + 1 := ⟨bytes.length - 1, by omega⟩
  have hrest : scanFuel maxBytes decode n rest = scan maxBytes decode rest :=
    scanFuel_eq (by omega) (Nat.le_refl _)
  rw [scan, hn, scanFuel, h]
  dsimp only
  rw [hdecode]
  dsimp only
  rw [hrest]

/-- A record that can be read back: short enough, and decoded to this. -/
structure Reads (maxBytes : ℕ) (decode : List UInt8 → Option α) (body : List UInt8) (a : α) :
    Prop where
  max : body.length ≤ maxBytes
  length : body.length < 2 ^ 32
  decode : decode body = some a

/-- **Whole records are read back**, whatever follows them. -/
theorem scan_frames {bodies : List (List UInt8)} {as : List α}
    (h : List.Forall₂ (Reads maxBytes decode) bodies as) (rest : List UInt8) :
    scan maxBytes decode (bodies.flatMap frame ++ rest) =
      (as ++ (scan maxBytes decode rest).1, (scan maxBytes decode rest).2) := by
  induction h with
  | nil => rfl
  | @cons body a bodies as hread _ ih =>
    rw [List.flatMap_cons, List.append_assoc,
      scan_cons (takeFrame_frame hread.max hread.length _) hread.decode, ih]
    rfl

/-- **What reading finds**: whole records, and a rest of which it reads nothing. -/
theorem scan_spec (bytes : List UInt8) : ∃ bodies,
    List.Forall₂ (Reads maxBytes decode) bodies (scan maxBytes decode bytes).1 ∧
      bytes = bodies.flatMap frame ++ (scan maxBytes decode bytes).2 ∧
      scan maxBytes decode (scan maxBytes decode bytes).2 = ([], (scan maxBytes decode bytes).2) := by
  induction hn : bytes.length using Nat.strongRecOn generalizing bytes with
  | ind n ih =>
    match htake : takeFrame maxBytes bytes with
    | none =>
      have hscan : scan maxBytes decode bytes = ([], bytes) := scan_of_takeFrame_none htake
      rw [hscan]
      exact ⟨[], .nil, rfl, hscan⟩
    | some (body, rest) =>
      obtain ⟨hbytes, hmax, hlength⟩ := takeFrame_eq_some htake
      cases hdecode : decode body with
      | none =>
        have hscan : scan maxBytes decode bytes = ([], bytes) := scan_of_decode_none htake hdecode
        rw [hscan]
        exact ⟨[], .nil, rfl, hscan⟩
      | some a =>
        have hrest : rest.length < n := by
          rw [← hn, hbytes, List.length_append, length_frame]
          omega
        obtain ⟨bodies, hbodies, hsplit, hstop⟩ := ih rest.length hrest rest rfl
        rw [scan_cons htake hdecode]
        refine ⟨body :: bodies, .cons ⟨hmax, hlength, hdecode⟩ hbodies, ?_, hstop⟩
        rw [List.flatMap_cons, List.append_assoc, ← hsplit]
        exact hbytes

/-- **A part of a write** is read as the first of its records. -/
theorem scan_prefix {bodies : List (List UInt8)} {as : List α} {bytes : List UInt8}
    (h : List.Forall₂ (Reads maxBytes decode) bodies as) (hbytes : bytes <+: bodies.flatMap frame) :
    ∃ k tail, scan maxBytes decode bytes = (as.take k, tail) ∧
      bytes = (bodies.take k).flatMap frame ++ tail ∧ takeFrame maxBytes tail = none := by
  induction h generalizing bytes with
  | nil =>
    obtain rfl := List.prefix_nil.mp hbytes
    exact ⟨0, [], rfl, rfl, rfl⟩
  | @cons body a bodies as hread _ ih =>
    obtain ⟨rest, hrest⟩ := hbytes
    rw [List.flatMap_cons] at hrest
    have hwhole : ∀ more, bytes = frame body ++ more → more <+: bodies.flatMap frame →
        ∃ k tail, scan maxBytes decode bytes = ((a :: as).take k, tail) ∧
          bytes = ((body :: bodies).take k).flatMap frame ++ tail ∧
          takeFrame maxBytes tail = none := by
      intro more hmore hprefix
      obtain ⟨k, tail, hscan, hsplit, htail⟩ := ih hprefix
      refine ⟨k + 1, tail, ?_, ?_, htail⟩
      · rw [hmore, scan_cons (takeFrame_frame hread.max hread.length _) hread.decode, hscan]
        rfl
      · rw [hmore, List.take_succ_cons, List.flatMap_cons, List.append_assoc, ← hsplit]
    obtain ⟨missing, hbody, -⟩ | ⟨more, hmore, hprefix⟩ := List.append_eq_append_iff.mp hrest
    · by_cases hmissing : missing = []
      · rw [hmissing, List.append_nil] at hbody
        exact hwhole [] (by rw [hbody, List.append_nil]) (List.nil_prefix)
      · -- the write ends in the first record
        have htorn : takeFrame maxBytes bytes = none := takeFrame_torn hread.length hbody hmissing
        exact ⟨0, bytes, scan_of_takeFrame_none htorn, rfl, htorn⟩
    · exact hwhole more hmore ⟨rest, hprefix.symm⟩

end Framing
end NestWeaver
