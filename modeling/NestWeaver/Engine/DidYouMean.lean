import NestWeaver.Framework.EditDistance
import NestWeaver.Store.Traverse.NamePage

/-!
# Names a small typo away

`crates/nestweaver-engine/src/did_you_mean.rs`: a name that no symbol has is compared with the names of all
symbols, and the closest ones are suggested (`editDistanceMatches`).  The distance is computed row by row, and
no further where it cannot be small any more (`boundedEditDistance`).

Neither way out loses a distance that is at most the bound (`boundedEditDistance_eq`).  A name that is the same
up to case is no typo, and is left out (`editDistanceMatches_eq`).
-/

set_option linter.all false

namespace NestWeaver
namespace DidYouMean

open EditDistance NamePage

/-! ## The code -/

def didYouMeanLimit : ℕ := 5

def didYouMeanOverFetch : ℕ := didYouMeanLimit * 4

/-- The furthest edit distance a suggestion may be from a name of so many characters. -/
def maxEditDistance (len : ℕ) : ℕ :=
  if len ≤ 2 then 0
  else if len ≤ 4 then 1
  else 2

def absDiff (m n : ℕ) : ℕ := (m - n) + (n - m)

section Code

variable {α : Type} [DecidableEq α]

/-- The rest of a row: what was pushed last, what stands above, and the characters that are left. -/
def fillRow (ca : α) : ℕ → List ℕ → List α → List ℕ
  | left, diagonal :: above :: previous, cb :: b =>
    let substitute := diagonal + mismatch ca cb
    let next := min (min substitute (above + 1)) (left + 1)
    next :: fillRow ca next (above :: previous) b
  | _, _, _ => []

/-- A row for each character, unless everything in it is too far. -/
def fillRows (b : List α) (max : ℕ) : ℕ → List ℕ → List α → Option (List ℕ)
  | _, previous, [] => some previous
  | i, previous, ca :: a =>
    let current := (i + 1) :: fillRow ca (i + 1) previous b
    if current.min?.any (max < ·) then none else fillRows b max (i + 1) current a

/-- Levenshtein distance when it is at most the bound. -/
def boundedEditDistance (a b : List α) (max : ℕ) : Option ℕ :=
  if max < absDiff a.length b.length then none
  else ((fillRows b max 0 (List.range (b.length + 1)) a).bind List.getLast?).filter (· ≤ max)

end Code

section Matches

variable (toLowercase : String → String)

/-- What is compared, one after the other: the distance, the name and the path. -/
def matchKey (found : ℕ × Symbol) : ℕ ×ₗ String ×ₗ String :=
  toLex (found.1, toLex (found.2.name, found.2.filePath))

/-- One entry of the table. -/
def visit (needle : List Char) (max : ℕ) (keep : Symbol → Bool) (entry : String × Symbol) :
    Option (ℕ × Symbol) :=
  let lower := entry.1.toList
  if entry.2.isModuleOwner ∨ max < absDiff lower.length needle.length ∨ keep entry.2 = false then none
  else
    ((boundedEditDistance needle lower max).filter (0 < ·)).map fun distance => (distance, entry.2)

/-- Symbols whose name is close, case insensitively, closest first. -/
def editDistanceMatches (table : SymbolNameCached) (name : String) (keep : Symbol → Bool) :
    List Symbol :=
  let needle := (toLowercase name).toList
  let max := maxEditDistance needle.length
  if max = 0 then []
  else
    let found := TopK.ranked matchKey (table.filterMap (visit needle max keep))
    (found.take didYouMeanOverFetch).map Prod.snd

end Matches

/-! ## The rows -/

variable {α : Type} [DecidableEq α] {a b p q : List α} {max i : ℕ}

/-- The distances of one front from longer and longer ones, all of them read backwards. -/
def row (p : List α) : List α → List α → List ℕ
  | q, [] => [levenshtein p q]
  | q, y :: b => levenshtein p q :: row p (y :: q) b

lemma exists_row_cons (p q b : List α) : ∃ rest, row p q b = levenshtein p q :: rest := by
  cases b with
  | nil => exact ⟨[], rfl⟩
  | cons y b => exact ⟨row p (y :: q) b, rfl⟩

lemma fillRow_row (ca : α) (p q b : List α) :
    levenshtein (ca :: p) q :: fillRow ca (levenshtein (ca :: p) q) (row p q b) b =
      row (ca :: p) q b := by
  induction b generalizing q with
  | nil => rfl
  | cons y b ih =>
    obtain ⟨rest, hrest⟩ := exists_row_cons p (y :: q) b
    have hnext := ih (y :: q)
    rw [hrest] at hnext
    rw [row, row, hrest, fillRow, ← levenshtein_cons_cons, hnext]

lemma row_nil (q b : List α) : row [] q b = List.range' q.length (b.length + 1) := by
  induction b generalizing q with
  | nil => simp [row]
  | cons y b ih =>
    rw [row, ih, List.length_cons, List.length_cons, levenshtein_nil_left, List.range'_succ (n := b.length + 1)]

lemma row_getLast? (p q b : List α) : (row p q b).getLast? = some (levenshtein p (b.reverse ++ q)) := by
  induction b generalizing q with
  | nil => rfl
  | cons y b ih =>
    obtain ⟨rest, hrest⟩ := exists_row_cons p (y :: q) b
    have hnext := ih (y :: q)
    rw [row, hrest, List.getLast?_cons_cons, ← hrest, hnext, List.reverse_cons, List.append_assoc,
      List.singleton_append]

/-- A row holds the distance from every part of what is compared. -/
lemma mem_row {ys : List α} (hsuffix : ys <:+ b.reverse ++ q) (hlength : q.length ≤ ys.length) :
    levenshtein p ys ∈ row p q b := by
  induction b generalizing q with
  | nil =>
    have hsame : ys = q := by
      rw [List.reverse_nil, List.nil_append] at hsuffix
      exact hsuffix.eq_of_length_le hlength
    rw [hsame]
    exact List.mem_cons_self
  | cons y b ih =>
    rw [List.reverse_cons, List.append_assoc, List.singleton_append] at hsuffix
    by_cases hq : ys.length = q.length
    · have hsame : ys = q := by
        have hqsuffix : q <:+ b.reverse ++ y :: q :=
          (List.suffix_cons y q).trans (List.suffix_append _ _)
        exact (List.suffix_of_suffix_length_le hsuffix hqsuffix (by omega)).eq_of_length hq
      obtain ⟨rest, hrest⟩ := exists_row_cons p q (y :: b)
      rw [hrest, hsame]
      exact List.mem_cons_self
    · exact List.mem_cons_of_mem _ (ih hsuffix (by rw [List.length_cons]; omega))

/-- Where everything in a row is too far, so is the whole. -/
lemma lt_levenshtein_of_row (front : List α) (h : ((row p [] b).min?).any (max < ·) = true) :
    max < levenshtein (front ++ p) b.reverse := by
  obtain ⟨ys, hsuffix, hle⟩ := exists_suffix_le front p b.reverse
  have hmem : levenshtein p ys ∈ row p [] b := by
    refine mem_row ?_ (Nat.zero_le _)
    rwa [List.append_nil]
  obtain ⟨best, hbest, hlt⟩ := (Option.any_eq_true _ _).mp h
  have hbound : best ≤ levenshtein p ys := (List.min?_eq_some_iff.mp hbest).2 _ hmem
  exact (of_decide_eq_true hlt).trans_le (hbound.trans hle)

variable (b max) in
/-- The last row is that of the whole, and without one the distance is too far. -/
lemma fillRows_row (p a : List α) (hi : p.length = i) :
    fillRows b max i (row p [] b) a = some (row (a.reverse ++ p) [] b) ∨
      fillRows b max i (row p [] b) a = none ∧ max < levenshtein (a.reverse ++ p) b.reverse := by
  induction a generalizing p i with
  | nil => exact .inl rfl
  | cons ca a ih =>
    have hfirst : i + 1 = levenshtein (ca :: p) [] := by
      rw [levenshtein_nil_right, List.length_cons, hi]
    rw [fillRows]
    simp only [hfirst, fillRow_row]
    rw [List.reverse_cons, List.append_assoc, List.singleton_append]
    by_cases hfar : ((row (ca :: p) [] b).min?).any (max < ·) = true
    · rw [if_pos hfar]
      exact .inr ⟨rfl, lt_levenshtein_of_row a.reverse hfar⟩
    · rw [if_neg hfar]
      refine ih (ca :: p) ?_
      rw [levenshtein_nil_right]

/-- **The bounded distance** is the distance if that is at most the bound. -/
lemma boundedEditDistance_eq (a b : List α) (max : ℕ) :
    boundedEditDistance a b max = if levenshtein a b ≤ max then some (levenshtein a b) else none := by
  obtain ⟨hleft, hright⟩ := length_le_levenshtein a b
  rw [boundedEditDistance, absDiff]
  by_cases hlength : max < (a.length - b.length) + (b.length - a.length)
  · rw [if_pos hlength, if_neg (by omega)]
  · have hrange : List.range (b.length + 1) = row [] [] b := by
      rw [row_nil, List.range_eq_range', List.length_nil]
    rw [if_neg hlength, hrange]
    obtain h | ⟨h, hlt⟩ := fillRows_row b max (i := 0) [] a rfl
    · rw [h, Option.bind_some, row_getLast?, List.append_nil, List.append_nil, levenshtein_reverse]
      by_cases hle : levenshtein a b ≤ max
      · rw [if_pos hle, Option.filter_some, if_pos (by simpa using hle)]
      · rw [if_neg hle, Option.filter_some, if_neg (by simpa using hle)]
    · rw [List.append_nil, levenshtein_reverse] at hlt
      rw [h, if_neg (not_le.mpr hlt)]
      rfl

/-! ## The suggestions -/

/-- A symbol that may be suggested. -/
def Admitted (keep : Symbol → Bool) (symbol : Symbol) : Prop :=
  symbol.isModuleOwner = false ∧ keep symbol = true

variable {toLowercase : String → String} {keep : Symbol → Bool} {needle : List Char}
  {entry : String × Symbol} {found : ℕ × Symbol} {d : ℕ}

lemma visit_eq_some : visit needle max keep entry = some found ↔
    Admitted keep entry.2 ∧ found = (levenshtein needle entry.1.toList, entry.2) ∧
      1 ≤ found.1 ∧ found.1 ≤ max := by
  obtain ⟨hleft, hright⟩ := length_le_levenshtein needle entry.1.toList
  rw [visit, absDiff, boundedEditDistance_eq]
  set distance := levenshtein needle entry.1.toList
  constructor
  · intro h
    split_ifs at h with hskip hle
    · obtain ⟨d, hd, rfl⟩ := Option.map_eq_some_iff.mp h
      obtain ⟨hd, hpos⟩ := Option.filter_eq_some_iff.mp hd
      obtain rfl := Option.some.inj hd
      push Not at hskip
      exact ⟨⟨by simpa using hskip.1, by simpa using hskip.2.2⟩, rfl, of_decide_eq_true hpos, hle⟩
    · simp at h
  · rintro ⟨⟨howner, hkeep⟩, rfl, hpos, hle⟩
    have hskip : ¬(entry.2.isModuleOwner = true ∨
        max < entry.1.toList.length - needle.length + (needle.length - entry.1.toList.length) ∨
          keep entry.2 = false) := by
      rw [howner, hkeep]
      simp
      omega
    dsimp only at hpos hle ⊢
    have hpositive : decide (0 < distance) = true := decide_eq_true hpos
    rw [if_neg hskip, if_pos hle, Option.filter_some, if_pos hpositive]
    rfl

/-- The symbols that are a small typo away, with the least numbers of edits. -/
structure Close (table : SymbolNameCached) (needle : List Char) (keep : Symbol → Bool)
    (found : List (ℕ × Symbol)) : Prop where
  /-- Every symbol that is admitted, and close but not the same, is among them. -/
  complete : ∀ entry ∈ table, Admitted keep entry.2 → ∀ d,
    IsLeast {n | Edits n needle entry.1.toList} d → 1 ≤ d → d ≤ maxEditDistance needle.length →
      (d, entry.2) ∈ found
  sound : ∀ d symbol, (d, symbol) ∈ found → ∃ lower, (lower, symbol) ∈ table ∧ Admitted keep symbol ∧
    IsLeast {n | Edits n needle lower.toList} d ∧ 1 ≤ d ∧ d ≤ maxEditDistance needle.length
  closest : found.Pairwise (TopK.Before matchKey)

lemma exists_close (toLowercase : String → String) (table : SymbolNameCached) (name : String)
    (keep : Symbol → Bool) : ∃ found, Close table (toLowercase name).toList keep found ∧
      editDistanceMatches toLowercase table name keep =
        (found.take didYouMeanOverFetch).map Prod.snd := by
  set needle := (toLowercase name).toList with hneedle
  by_cases hmax : maxEditDistance needle.length = 0
  · refine ⟨[], ⟨fun _ _ _ d _ hpos hle => absurd (hpos.trans hle) (by omega), by simp, by simp⟩, ?_⟩
    rw [editDistanceMatches]
    simp [← hneedle, hmax]
  · refine ⟨TopK.ranked matchKey (table.filterMap (visit needle (maxEditDistance needle.length) keep)),
      ⟨?_, ?_, TopK.pairwise_ranked _ _⟩, ?_⟩
    · intro entry hentry hadmitted d hd hpos hle
      rw [(TopK.ranked_perm _ _).mem_iff, List.mem_filterMap]
      obtain rfl := hd.unique (isLeast_levenshtein _ _)
      exact ⟨entry, hentry, visit_eq_some.mpr ⟨hadmitted, rfl, hpos, hle⟩⟩
    · intro d symbol hmem
      rw [(TopK.ranked_perm _ _).mem_iff, List.mem_filterMap] at hmem
      obtain ⟨⟨lower, symbol'⟩, hentry, hvisit⟩ := hmem
      obtain ⟨hadmitted, heq, hpos, hle⟩ := visit_eq_some.mp hvisit
      obtain ⟨rfl, rfl⟩ := Prod.mk.inj heq
      exact ⟨lower, hentry, hadmitted, isLeast_levenshtein _ _, hpos, hle⟩
    · rw [editDistanceMatches]
      simp only [← hneedle, if_neg hmax]

def helper : Symbol :=
  ⟨"sym:helper", "Helper", .function, "repo:r", "src/a.rs", 1, 2, none, false, none, .public⟩

end DidYouMean
end NestWeaver
