import Mathlib.Algebra.Ring.Nat
import Mathlib.Data.List.Basic

/-!
# Little-endian numbers

Numbers in so many bytes, the last byte first to count.
-/

set_option linter.all false

namespace NestWeaver
namespace LittleEndian

/-- The lowest bytes of a number. -/
def toLe : ℕ → ℕ → List UInt8
  | 0, _ => []
  | width + 1, n => UInt8.ofNat n :: toLe width (n / 256)

/-- The number that bytes spell. -/
def ofLe : List UInt8 → ℕ
  | [] => 0
  | b :: bytes => b.toNat + 256 * ofLe bytes

@[simp] lemma length_toLe (width n : ℕ) : (toLe width n).length = width := by
  induction width generalizing n with
  | zero => rfl
  | succ width ih => rw [toLe, List.length_cons, ih]

lemma ofLe_toLe {width n : ℕ} (h : n < 256 ^ width) : ofLe (toLe width n) = n := by
  induction width generalizing n with
  | zero =>
    rw [pow_zero] at h
    rw [toLe, ofLe]
    omega
  | succ width ih =>
    rw [pow_succ] at h
    rw [toLe, ofLe, ih (Nat.div_lt_of_lt_mul (by rwa [Nat.mul_comm])), UInt8.toNat_ofNat']
    omega

lemma ofLe_lt (bytes : List UInt8) : ofLe bytes < 256 ^ bytes.length := by
  induction bytes with
  | nil => exact Nat.one_pos
  | cons b bytes ih =>
    have hb := b.toNat_lt
    rw [ofLe, List.length_cons, pow_succ]
    omega

end LittleEndian
end NestWeaver
