import Mathlib.Data.List.DropRight
import Mathlib.Data.List.Infix

/-!
# Cutting strings

Strings as lists of characters, cut as the standard library of the source does: at the first occurrence
of a pattern (`splitOnce`), by a prefix or a suffix (`stripPrefix`, `stripSuffix`), and by the characters
at either end.
-/

set_option linter.all false

namespace NestWeaver
namespace Strings

variable {α : Type*} [DecidableEq α]

/-! ## Patterns -/

/-- What is before and after the first occurrence. -/
def splitOnce (pattern : List α) : List α → Option (List α × List α)
  | [] => if pattern = [] then some ([], []) else none
  | a :: s =>
    if pattern <+: a :: s then some ([], (a :: s).drop pattern.length)
    else (splitOnce pattern s).map fun (front, back) => (a :: front, back)

def stripPrefix (pattern s : List α) : Option (List α) :=
  if pattern <+: s then some (s.drop pattern.length) else none

def stripSuffix (pattern s : List α) : Option (List α) :=
  if pattern <:+ s then some (s.take (s.length - pattern.length)) else none

/-- So many times at most. -/
def trimStart (pattern : List α) : ℕ → List α → List α
  | 0, s => s
  | fuel + 1, s =>
    match stripPrefix pattern s with
    | none => s
    | some rest => trimStart pattern fuel rest

/-- As often as it is there. -/
def trimStartMatches (pattern s : List α) : List α := trimStart pattern s.length s

/-- What is before and after the last occurrence. -/
def rsplitOnce (a : α) (s : List α) : Option (List α × List α) :=
  (splitOnce [a] s.reverse).map fun (back, front) => (front.reverse, back.reverse)

/-- What is before and after each occurrence. -/
def splitsAt (a : α) : List α → List (List α × List α)
  | [] => []
  | b :: s =>
    let later := (splitsAt a s).map fun (front, back) => (b :: front, back)
    if b = a then ([], s) :: later else later

variable {pattern s front back : List α} {a : α}

lemma splitOnce_eq_none (hpattern : pattern ≠ []) :
    splitOnce pattern s = none ↔ ¬pattern <:+: s := by
  induction s with
  | nil => simp [splitOnce, hpattern]
  | cons b s ih =>
    rw [splitOnce]
    by_cases hpre : pattern <+: b :: s
    · simp [hpre, hpre.isInfix]
    · rw [if_neg hpre, Option.map_eq_none_iff, ih, List.infix_cons_iff]
      simp [hpre]

/-- A pattern whose first character does not occur before. -/
lemma splitOnce_append (hfront : a ∉ front) :
    splitOnce (a :: pattern) (front ++ a :: pattern ++ back) = some (front, back) := by
  induction front with
  | nil =>
    have hpre : a :: pattern <+: a :: (pattern ++ back) := by
      rw [← List.cons_append]
      exact List.prefix_append ..
    rw [List.nil_append, List.cons_append, splitOnce, if_pos hpre, List.length_cons,
      List.drop_succ_cons, List.drop_left]
  | cons b front ih =>
    rw [List.mem_cons, not_or] at hfront
    have hpre : ¬a :: pattern <+: b :: (front ++ a :: pattern ++ back) :=
      fun h => hfront.1 (List.cons_prefix_cons.mp h).1
    rw [List.cons_append, List.cons_append, splitOnce, if_neg hpre, ih hfront.2]
    rfl

lemma splitOnce_singleton (hfront : a ∉ front) :
    splitOnce [a] (front ++ a :: back) = some (front, back) := by
  have hsplit : splitOnce [a] (front ++ [a] ++ back) = some (front, back) := splitOnce_append hfront
  rwa [List.append_assoc, List.singleton_append] at hsplit

lemma rsplitOnce_append (hback : a ∉ back) :
    rsplitOnce a (front ++ a :: back) = some (front, back) := by
  have hreverse : (front ++ a :: back).reverse = back.reverse ++ a :: front.reverse := by simp
  rw [rsplitOnce, hreverse, splitOnce_singleton (by simpa using hback), Option.map_some]
  simp

lemma splitOnce_eq_some (h : splitOnce pattern s = some (front, back)) :
    s = front ++ pattern ++ back := by
  induction s generalizing front with
  | nil =>
    rw [splitOnce] at h
    split_ifs at h with hpattern
    obtain ⟨rfl, rfl⟩ := Prod.mk.inj (Option.some.inj h)
    simp [hpattern]
  | cons b s ih =>
    rw [splitOnce] at h
    split_ifs at h with hpre
    · obtain ⟨rfl, rfl⟩ := Prod.mk.inj (Option.some.inj h)
      obtain ⟨rest, hrest⟩ := hpre
      rw [← hrest, List.drop_left, List.nil_append]
    · obtain ⟨⟨front', back'⟩, hsplit, heq⟩ := Option.map_eq_some_iff.mp h
      obtain ⟨rfl, rfl⟩ := Prod.mk.inj heq
      rw [ih hsplit]
      rfl

lemma mem_splitsAt : (front, back) ∈ splitsAt a s ↔ s = front ++ a :: back := by
  induction s generalizing front with
  | nil => simp [splitsAt]
  | cons b s ih =>
    have hlater : (front, back) ∈ (splitsAt a s).map (fun (front, back) => (b :: front, back)) ↔
        ∃ front', front = b :: front' ∧ s = front' ++ a :: back := by
      simp only [List.mem_map, Prod.exists, Prod.mk.injEq]
      constructor
      · rintro ⟨front', back', hmem, rfl, rfl⟩
        exact ⟨front', rfl, ih.mp hmem⟩
      · rintro ⟨front', rfl, hs⟩
        exact ⟨front', back, ih.mpr hs, rfl, rfl⟩
    rw [splitsAt]
    cases front with
    | nil =>
      split_ifs with hb
      · simp [hb, eq_comm]
      · simp [hlater, hb]
    | cons b' front =>
      split_ifs <;> simp [hlater, eq_comm, and_comm]

lemma stripPrefix_append : stripPrefix pattern (pattern ++ s) = some s := by
  rw [stripPrefix, if_pos (List.prefix_append ..), List.drop_left]

lemma stripPrefix_eq_none : stripPrefix pattern s = none ↔ ¬pattern <+: s := by
  rw [stripPrefix]
  split_ifs with h <;> simp [h]

lemma append_of_stripPrefix (h : stripPrefix pattern s = some back) : pattern ++ back = s := by
  rw [stripPrefix] at h
  split_ifs at h with hprefix
  obtain ⟨tail, rfl⟩ := hprefix
  rw [← Option.some.inj h, List.drop_left]

lemma trimStart_of_not_prefix (fuel : ℕ) (h : ¬pattern <+: s) : trimStart pattern fuel s = s := by
  cases fuel with
  | zero => rfl
  | succ fuel => rw [trimStart, stripPrefix_eq_none.mpr h]

/-- It is there once. -/
lemma trimStartMatches_append (hpattern : pattern ≠ []) (h : ¬pattern <+: s) :
    trimStartMatches pattern (pattern ++ s) = s := by
  obtain ⟨a, pattern, rfl⟩ := List.exists_cons_of_ne_nil hpattern
  rw [trimStartMatches, List.cons_append, List.length_cons, trimStart, ← List.cons_append,
    stripPrefix_append]
  exact trimStart_of_not_prefix _ h

lemma stripSuffix_append : stripSuffix pattern (s ++ pattern) = some s := by
  rw [stripSuffix, if_pos (List.suffix_append ..), List.length_append, Nat.add_sub_cancel,
    List.take_left]

lemma stripSuffix_of_not_suffix (h : ¬pattern <:+ s) : stripSuffix pattern s = none := if_neg h

/-! ## Pieces -/

lemma splitOn_separator (a : α) (s : List α) : (a :: s).splitOn a = [] :: s.splitOn a := by
  rw [List.splitOn_cons_eq_if_modifyHead, if_pos (beq_self_eq_true _)]

/-- Any other character goes on the first piece. -/
lemma exists_splitOn_cons {b : α} (hb : b ≠ a) (s : List α) : ∃ piece pieces,
    s.splitOn a = piece :: pieces ∧ (b :: s).splitOn a = (b :: piece) :: pieces := by
  obtain ⟨piece, pieces, hpieces⟩ := List.exists_cons_of_ne_nil (List.splitOn_ne_nil a s)
  refine ⟨piece, pieces, hpieces, ?_⟩
  rw [List.splitOn_cons_eq_if_modifyHead, if_neg (by simpa using hb), hpieces, List.modifyHead_cons]

lemma notMem_of_mem_splitOn {piece : List α} (h : piece ∈ s.splitOn a) : a ∉ piece := by
  induction s generalizing piece with
  | nil =>
    rw [List.splitOn_nil, List.mem_singleton] at h
    rw [h]
    exact List.not_mem_nil
  | cons c s ih =>
    by_cases hc : c = a
    · rw [hc, splitOn_separator] at h
      obtain rfl | h := List.mem_cons.mp h
      · exact List.not_mem_nil
      · exact ih h
    · obtain ⟨first, pieces, hpieces, hcons⟩ := exists_splitOn_cons hc s
      rw [hpieces] at ih
      rw [hcons] at h
      obtain rfl | h := List.mem_cons.mp h
      · exact List.not_mem_cons_of_ne_of_not_mem (Ne.symm hc) (ih List.mem_cons_self)
      · exact ih (List.mem_cons_of_mem _ h)

/-! ## Ends -/

omit [DecidableEq α]

variable {p : α → Bool}

/-- Trimming stops at a character that stays. -/
lemma rdropWhile_append (hfront : ∀ b ∈ front.getLast?, p b = false) :
    (front ++ back).rdropWhile p = front ++ back.rdropWhile p := by
  induction back using List.reverseRecOn with
  | nil =>
    rw [List.append_nil, List.rdropWhile_nil, List.append_nil, List.rdropWhile_eq_self_iff]
    intro hlast
    have hmem := hfront _ (List.getLast_mem_getLast? hlast)
    simp [hmem]
  | append_singleton back b ih =>
    rw [← List.append_assoc]
    by_cases hb : p b = true
    · rw [List.rdropWhile_concat_pos _ _ _ hb, List.rdropWhile_concat_pos _ _ _ hb, ih]
    · rw [List.rdropWhile_concat_neg _ _ _ hb, List.rdropWhile_concat_neg _ _ _ hb,
        List.append_assoc]

/-- Trimming stops within the end if a part of it stays. -/
lemma rdropWhile_append_of_ne_nil (front : List α) (hback : back.rdropWhile p ≠ []) :
    (front ++ back).rdropWhile p = front ++ back.rdropWhile p := by
  induction back using List.reverseRecOn with
  | nil => exact absurd (List.rdropWhile_nil p) hback
  | append_singleton back b ih =>
    rw [← List.append_assoc]
    by_cases hb : p b = true
    · rw [List.rdropWhile_concat_pos _ _ _ hb] at hback
      rw [List.rdropWhile_concat_pos _ _ _ hb, List.rdropWhile_concat_pos _ _ _ hb, ih hback]
    · rw [List.rdropWhile_concat_neg _ _ _ hb, List.rdropWhile_concat_neg _ _ _ hb,
        List.append_assoc]

lemma rtakeWhile_append (front : List α) {a : α} (ha : p a = false) (back : List α) :
    (front ++ a :: back).rtakeWhile p = back.rtakeWhile p := by
  induction back using List.reverseRecOn with
  | nil => rw [List.rtakeWhile_concat_neg _ _ _ (by simp [ha]), List.rtakeWhile_nil]
  | append_singleton back b ih =>
    rw [← List.cons_append, ← List.append_assoc]
    by_cases hb : p b = true
    · rw [List.rtakeWhile_concat_pos _ _ _ hb, List.rtakeWhile_concat_pos _ _ _ hb, ih]
    · rw [List.rtakeWhile_concat_neg _ _ _ hb, List.rtakeWhile_concat_neg _ _ _ hb]

lemma exists_rdropWhile (p : α → Bool) (s : List α) :
    ∃ tail, s = s.rdropWhile p ++ tail ∧ ∀ b ∈ tail, p b = true :=
  ⟨s.rtakeWhile p, List.rdropWhile_append_rtakeWhile.symm, fun _ => List.mem_rtakeWhile_imp⟩

end Strings

/-- Unicode `White_Space`. -/
def isWhiteSpace (c : Char) : Bool :=
  (9 ≤ c.toNat && c.toNat ≤ 13) || (0x2000 ≤ c.toNat && c.toNat ≤ 0x200a) ||
    [0x20, 0x85, 0xa0, 0x1680, 0x2028, 0x2029, 0x202f, 0x205f, 0x3000].contains c.toNat

lemma isWhiteSpace_of_isDigit {c : Char} (h : c.isDigit = true) : isWhiteSpace c = false := by
  have hrange : 48 ≤ c.toNat ∧ c.toNat ≤ 57 := Char.isDigit_iff_toNat.mp h
  simp [isWhiteSpace]
  omega

def Strings.trim (s : List Char) : List Char :=
  (s.dropWhile isWhiteSpace).rdropWhile isWhiteSpace

/-- Trimming stops at both ends of a part that stays. -/
lemma Strings.trim_append {front back : List Char} (hne : front ≠ [])
    (hfirst : ∀ c ∈ front.head?, isWhiteSpace c = false)
    (hlast : ∀ c ∈ front.getLast?, isWhiteSpace c = false) :
    trim (front ++ back) = front ++ back.rdropWhile isWhiteSpace := by
  obtain ⟨c, front, rfl⟩ := List.exists_cons_of_ne_nil hne
  have hc : ¬isWhiteSpace c = true := by
    rw [hfirst c rfl]
    exact Bool.false_ne_true
  rw [trim, List.cons_append, List.dropWhile_cons_of_neg hc, ← List.cons_append]
  exact rdropWhile_append hlast

/-- There is nothing to trim where both ends are not white space. -/
lemma Strings.trim_eq_self {s : List Char} (hne : s ≠ []) (hfirst : ∀ c ∈ s.head?, isWhiteSpace c = false)
    (hlast : ∀ c ∈ s.getLast?, isWhiteSpace c = false) : trim s = s := by
  have htrim : trim (s ++ []) = s ++ [].rdropWhile isWhiteSpace := trim_append hne hfirst hlast
  rwa [List.append_nil, List.rdropWhile_nil, List.append_nil] at htrim

/-- What is trimmed does not end in white space. -/
lemma Strings.getLast?_of_trim_eq {s : List Char} (h : trim s = s) :
    ∀ c ∈ s.getLast?, isWhiteSpace c = false := by
  intro c hc
  obtain ⟨hne, hlast⟩ := List.mem_getLast?_eq_getLast hc
  rw [trim] at h
  have hdrop : s.rdropWhile isWhiteSpace = s := by
    rw [← h]
    exact List.rdropWhile_idempotent _ _
  rw [hlast]
  exact Bool.not_eq_true _ ▸ List.rdropWhile_eq_self_iff.mp hdrop hne

end NestWeaver
