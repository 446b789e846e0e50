import Mathlib.Data.List.Basic

/-!
# Regex high-level intermediate representation and its matching semantics

The syntax tree `regex_syntax` hands to its consumers, with the spans of a haystack each tree
matches.  Offsets count bytes, as in the engine; a Unicode class consumes the code of one of its
characters and a byte class one byte.

An assertion consumes nothing and holds or fails at an offset of a haystack.  Which assertion
holds where is a parameter (`look`) of the semantics: the results over this module are about the
strings a tree can match, and hold under every reading of the assertions.
-/

set_option linter.all false

namespace NestWeaver
namespace Hir

/-- The zero-width assertions. -/
inductive Look
  | start | end | startLF | endLF | startCRLF | endCRLF
  | wordAscii | wordAsciiNegate | wordUnicode | wordUnicodeNegate
  | wordStartAscii | wordEndAscii | wordStartUnicode | wordEndUnicode
  | wordStartHalfAscii | wordEndHalfAscii | wordStartHalfUnicode | wordEndHalfUnicode
  deriving DecidableEq, Repr

/-- A non-empty range of characters, both ends included. -/
structure ClassUnicodeRange where
  start : Char
  «end» : Char
  le : start.val ≤ «end».val

/-- A non-empty range of bytes, both ends included. -/
structure ClassBytesRange where
  start : UInt8
  «end» : UInt8
  le : start ≤ «end»

/-- A character class: a set of characters, or of bytes when Unicode mode is off. -/
inductive Class
  | unicode (ranges : List ClassUnicodeRange)
  | bytes (ranges : List ClassBytesRange)

end Hir

/-- The syntax tree.  A repetition without `max` is unbounded. -/
inductive Hir
  | empty
  | literal (bytes : List UInt8)
  | class (cls : Hir.Class)
  | look (assertion : Hir.Look)
  | repetition (min : ℕ) (max : Option ℕ) (sub : Hir)
  | capture (sub : Hir)
  | concat (children : List Hir)
  | alternation (children : List Hir)

namespace Hir

/-! ## Spans of a haystack -/

/-- The bytes `bs` stand in `hay` from offset `i` to offset `j`. -/
def At (hay : List UInt8) (i : ℕ) (bs : List UInt8) (j : ℕ) : Prop :=
  ∃ pre post, hay = pre ++ (bs ++ post) ∧ pre.length = i ∧ i + bs.length = j

lemma At.append {hay : List UInt8} {i k j : ℕ} {bs cs : List UInt8}
    (h₁ : At hay i bs k) (h₂ : At hay k cs j) : At hay i (bs ++ cs) j := by
  obtain ⟨pre, post, rfl, rfl, rfl⟩ := h₁
  obtain ⟨pre', post', heq, hlen, rfl⟩ := h₂
  rw [← List.append_assoc] at heq
  obtain ⟨rfl, rfl⟩ := List.append_inj heq (by simp [hlen])
  exact ⟨pre, post', by simp, rfl, by simp [Nat.add_assoc]⟩

lemma At.nil {hay : List UInt8} {i j : ℕ} {bs : List UInt8} (h : At hay i bs j) :
    At hay j [] j := by
  obtain ⟨pre, post, rfl, rfl, rfl⟩ := h
  exact ⟨pre ++ bs, post, by simp, by simp, by simp⟩

/-! ## Matching -/

/-- The bytes one element of a class can be. -/
def Class.Accepts : Class → List UInt8 → Prop
  | .unicode ranges, bs => ∃ r ∈ ranges, ∃ c : Char,
      r.start.val ≤ c.val ∧ c.val ≤ r.end.val ∧ bs = String.utf8EncodeChar c
  | .bytes ranges, bs => ∃ r ∈ ranges, ∃ b : UInt8, r.start ≤ b ∧ b ≤ r.end ∧ bs = [b]

/-- `n` consecutive steps of a relation on offsets. -/
def Iterate (r : ℕ → ℕ → Prop) : ℕ → ℕ → ℕ → Prop
  | 0, i, j => i = j
  | n + 1, i, j => ∃ k, r i k ∧ Iterate r n k j

variable (look : Look → List UInt8 → ℕ → Prop) (hay : List UInt8)

mutual

/-- `h.Matches look hay i j`: the tree matches the span of `hay` from `i` to `j`. -/
def Matches : Hir → ℕ → ℕ → Prop
  | .empty, i, j => At hay i [] j
  | .literal bytes, i, j => At hay i bytes j
  | .class cls, i, j => ∃ bs, cls.Accepts bs ∧ At hay i bs j
  | .look assertion, i, j => At hay i [] j ∧ look assertion hay i
  | .repetition min max sub, i, j => At hay i [] i ∧ ∃ n, min ≤ n ∧
      (∀ m, max = some m → n ≤ m) ∧ Iterate (fun a b => Matches sub a b) n i j
  | .capture sub, i, j => Matches sub i j
  | .concat children, i, j => At hay i [] i ∧ MatchesSeq children i j
  | .alternation children, i, j => MatchesAny children i j

/-- The trees of a list match adjacent spans, in order. -/
def MatchesSeq : List Hir → ℕ → ℕ → Prop
  | [], i, j => i = j
  | h :: hs, i, j => ∃ k, Matches h i k ∧ MatchesSeq hs k j

/-- Some tree of a list matches the span. -/
def MatchesAny : List Hir → ℕ → ℕ → Prop
  | [], _, _ => False
  | h :: hs, i, j => Matches h i j ∨ MatchesAny hs i j

end

variable {look hay}

/-- An invariant of one step, along an iteration. -/
lemma Iterate.invariant {r : ℕ → ℕ → Prop} {P : ℕ → Prop} (hstep : ∀ a b, r a b → P b)
    {n i j : ℕ} (hi : P i) (h : Iterate r n i j) : P j := by
  induction n generalizing i with
  | zero => exact h ▸ hi
  | succ n ih =>
    obtain ⟨k, hk, hrest⟩ := h
    exact ih (hstep i k hk) hrest

/-- A non-empty iteration begins with a step. -/
lemma Iterate.first {r : ℕ → ℕ → Prop} {n i j : ℕ} (hn : n ≠ 0) (h : Iterate r n i j) :
    ∃ k, r i k := by
  cases n with
  | zero => exact absurd rfl hn
  | succ n => exact h.imp fun _ hk => hk.1

mutual

/-- A match ends inside the haystack. -/
lemma Matches.at_end : ∀ (h : Hir) (i j : ℕ), h.Matches look hay i j → At hay j [] j
  | .empty, _, _, hm => hm.nil
  | .literal _, _, _, hm => hm.nil
  | .class _, _, _, ⟨_, _, hm⟩ => hm.nil
  | .look _, _, _, hm => hm.1.nil
  | .repetition _ _ sub, _, _, ⟨hi, _, _, _, hn⟩ =>
    hn.invariant (P := fun k => At hay k [] k) (fun a b => Matches.at_end sub a b) hi
  | .capture sub, i, j, hm => Matches.at_end sub i j hm
  | .concat children, i, j, hm => MatchesSeq.at_end children i j hm.1 hm.2
  | .alternation children, i, j, hm => MatchesAny.at_end children i j hm

lemma MatchesSeq.at_end : ∀ (hs : List Hir) (i j : ℕ), At hay i [] i →
    MatchesSeq look hay hs i j → At hay j [] j
  | [], _, _, hi, hm => hm ▸ hi
  | h :: hs, i, j, _, ⟨k, hk, hrest⟩ =>
    MatchesSeq.at_end hs k j (Matches.at_end h i k hk) hrest

lemma MatchesAny.at_end : ∀ (hs : List Hir) (i j : ℕ), MatchesAny look hay hs i j → At hay j [] j
  | h :: _, i, j, .inl hm => Matches.at_end h i j hm
  | _ :: hs, i, j, .inr hm => MatchesAny.at_end hs i j hm

end

end Hir
end NestWeaver
