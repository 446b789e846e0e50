import Mathlib.Data.List.Basic
import NestWeaver.Framework.Strings

/-!
# Lines of a text

A text is cut into lines as the standard library of the source does (`lines`), and put together again with
a line feed between two lines.  The line of a position is the number of line feeds before it (`lineAt`).
-/

set_option linter.all false

namespace NestWeaver
namespace Lines

def stripReturn (line : List Char) : List Char := (Strings.stripSuffix ['\r'] line).getD line

/-- The lines of a text: each ends with a line feed, or a carriage return and a line feed, and the last may
end without. -/
def lines (text : List Char) : List (List Char) :=
  let pieces := text.splitOn '\n'
  pieces.dropLast.map stripReturn ++
    (if pieces.getLast? = some [] then [] else pieces.getLast?.toList)

/-- The lines with a line feed between two of them. -/
def joinLines (ls : List (List Char)) : List Char := ['\n'].intercalate ls

/-- On which line a position is, counted from 0. -/
def lineAt (text : List Char) (position : ℕ) : ℕ := (text.take position).count '\n'

variable {text : List Char} {ls : List (List Char)} {position : ℕ}

/-- No line contains a line feed. -/
lemma notMem_of_mem_lines {line : List Char} (h : line ∈ lines text) : '\n' ∉ line := by
  rw [lines, List.mem_append] at h
  obtain h | h := h
  · obtain ⟨piece, hpiece, rfl⟩ := List.mem_map.mp h
    have hnotMem := Strings.notMem_of_mem_splitOn (List.mem_of_mem_dropLast hpiece)
    rw [stripReturn, Strings.stripSuffix]
    split_ifs
    · exact fun hmem => hnotMem (List.mem_of_mem_take hmem)
    · exact hnotMem
  · split_ifs at h
    · exact absurd h List.not_mem_nil
    · exact Strings.notMem_of_mem_splitOn (List.mem_of_getLast? (Option.mem_toList.mp h))

/-- A text that is put together of lines is cut into these. -/
lemma splitOn_joinLines (hls : ls ≠ []) (h : ∀ line ∈ ls, '\n' ∉ line) :
    (joinLines ls).splitOn '\n' = ls :=
  List.splitOn_intercalate '\n' h hls

lemma flatMap_lineFeed (hls : ls ≠ []) : ls.flatMap (fun line => line ++ ['\n']) = joinLines ls ++ ['\n'] := by
  induction ls with
  | nil => exact absurd rfl hls
  | cons line ls ih =>
    cases ls with
    | nil => simp [joinLines]
    | cons line' ls =>
      rw [List.flatMap_cons, ih (List.cons_ne_nil _ _)]
      simp [joinLines, List.intercalate_cons_cons]

/-- There is one line more than there are line feeds. -/
lemma length_splitOn (text : List Char) : (text.splitOn '\n').length = text.count '\n' + 1 := by
  induction text with
  | nil => rfl
  | cons c text ih =>
    by_cases hc : c = '\n'
    · rw [hc, Strings.splitOn_separator, List.length_cons, ih, List.count_cons_self]
    · obtain ⟨piece, pieces, hpieces, hcons⟩ := Strings.exists_splitOn_cons hc text
      rw [hpieces, List.length_cons] at ih
      rw [hcons, List.length_cons, List.count_cons_of_ne hc, ih]

lemma lineAt_append_of_le {front back : List Char} (h : position ≤ front.length) :
    lineAt (front ++ back) position = lineAt front position := by
  rw [lineAt, lineAt, List.take_append_of_le_length h]

lemma lineAt_append (front back : List Char) (position : ℕ) :
    lineAt (front ++ back) (front.length + position) = front.count '\n' + lineAt back position := by
  rw [lineAt, lineAt, List.take_length_add_append, List.count_append]

lemma lineAt_le (text : List Char) (position : ℕ) : lineAt text position ≤ text.count '\n' :=
  (List.take_sublist _ _).count_le _

/-! ## Lines with their ends -/

/-- The lines of a text, each with the line feed that ends it. -/
def rawLines : List Char → List (List Char)
  | [] => []
  | c :: text =>
    if c = '\n' then ['\n'] :: rawLines text
    else
      match rawLines text with
      | [] => [[c]]
      | line :: rest => (c :: line) :: rest

/-- A line without its end. -/
def lineContent (line : List Char) : List Char :=
  match Strings.stripSuffix ['\n'] line with
  | some content => stripReturn content
  | none => line

variable {content line : List Char} {rest front back : List (List Char)}

lemma flatten_rawLines (text : List Char) : (rawLines text).flatten = text := by
  induction text with
  | nil => rfl
  | cons c text ih =>
    rw [rawLines]
    by_cases hc : c = '\n'
    · rw [if_pos hc, List.flatten_cons, ih, hc]
      rfl
    · rw [if_neg hc]
      cases hraw : rawLines text with
      | nil =>
        rw [hraw] at ih
        simp [← ih]
      | cons line rest =>
        rw [hraw] at ih
        simp [← ih]

lemma rawLines_append_lineFeed (hcontent : '\n' ∉ content) (text : List Char) :
    rawLines (content ++ '\n' :: text) = (content ++ ['\n']) :: rawLines text := by
  induction content with
  | nil => rw [List.nil_append, rawLines, if_pos rfl, List.nil_append]
  | cons c content ih =>
    obtain ⟨hc, hcontent⟩ := not_or.mp (mt List.mem_cons.mpr hcontent)
    rw [List.cons_append, rawLines, if_neg (Ne.symm hc), ih hcontent]
    rfl

lemma rawLines_of_notMem (hne : content ≠ []) (hcontent : '\n' ∉ content) :
    rawLines content = [content] := by
  induction content with
  | nil => exact absurd rfl hne
  | cons c content ih =>
    obtain ⟨hc, hcontent⟩ := not_or.mp (mt List.mem_cons.mpr hcontent)
    rw [rawLines, if_neg (Ne.symm hc)]
    cases content with
    | nil => rfl
    | cons c' content => rw [ih (List.cons_ne_nil _ _) hcontent]

/-- The first line, and the text behind it. -/
lemma rawLines_eq_cons (h : rawLines text = line :: rest) :
    (∃ content tail, '\n' ∉ content ∧ line = content ++ ['\n'] ∧ text = content ++ '\n' :: tail ∧
      rawLines tail = rest) ∨ line = text ∧ '\n' ∉ text ∧ text ≠ [] ∧ rest = [] := by
  by_cases hmem : '\n' ∈ text
  · obtain ⟨content, tail, rfl, hcontent⟩ := List.eq_append_cons_of_mem hmem
    rw [rawLines_append_lineFeed hcontent] at h
    obtain ⟨rfl, rfl⟩ := List.cons.inj h
    exact .inl ⟨content, tail, hcontent, rfl, rfl, rfl⟩
  · have hne : text ≠ [] := by
      rintro rfl
      cases h
    rw [rawLines_of_notMem hne hmem] at h
    obtain ⟨rfl, rfl⟩ := List.cons.inj h
    exact .inr ⟨rfl, hmem, hne, rfl⟩

/-- Only the last line may end without a line feed. -/
lemma rawLines_eq_append (h : rawLines text = front ++ line :: back) :
    (∀ line' ∈ front, ∃ content, '\n' ∉ content ∧ line' = content ++ ['\n']) ∧
      rawLines (text.drop front.flatten.length) = line :: back ∧
      text = front.flatten ++ text.drop front.flatten.length := by
  induction front generalizing text with
  | nil => exact ⟨by simp, h, rfl⟩
  | cons first front ih =>
    obtain ⟨content, tail, hcontent, rfl, rfl, hrest⟩ | ⟨-, -, -, hnil⟩ := rawLines_eq_cons h
    · obtain ⟨hfront, hline, htail⟩ := ih hrest
      have hdrop : (content ++ '\n' :: tail).drop (((content ++ ['\n']) :: front).flatten.length) =
          tail.drop front.flatten.length := by
        have hsplit : content ++ '\n' :: tail = (content ++ ['\n']) ++ tail := by simp
        rw [List.flatten_cons, List.length_append, ← List.drop_drop, hsplit, List.drop_left]
      rw [hdrop]
      refine ⟨?_, hline, ?_⟩
      · intro line' hline'
        obtain rfl | hline' := List.mem_cons.mp hline'
        · exact ⟨content, hcontent, rfl⟩
        · exact hfront line' hline'
      · rw [List.flatten_cons, List.append_assoc, ← htail, List.append_assoc, List.singleton_append]
    · exact absurd hnil (List.append_ne_nil_of_right_ne_nil _ (List.cons_ne_nil _ _))

lemma lineContent_append_lineFeed (content : List Char) :
    lineContent (content ++ ['\n']) = stripReturn content := by
  rw [lineContent, Strings.stripSuffix_append]

lemma lineContent_of_notMem (h : '\n' ∉ line) : lineContent line = line := by
  rw [lineContent, Strings.stripSuffix_of_not_suffix]
  intro hsuffix
  exact h (hsuffix.subset (List.mem_singleton_self _))

/-- The lines without their ends. -/
lemma lines_eq_map_rawLines (text : List Char) : lines text = (rawLines text).map lineContent := by
  induction hn : text.length using Nat.strong_induction_on generalizing text with
  | _ n ih =>
    by_cases hmem : '\n' ∈ text
    · obtain ⟨content, tail, rfl, hcontent⟩ := List.eq_append_cons_of_mem hmem
      have hsplit : (content ++ '\n' :: tail).splitOn '\n' = content :: tail.splitOn '\n' := by
        rw [List.splitOn_eq_splitOnP, List.splitOn_eq_splitOnP]
        refine List.splitOnP_append_cons_of_forall_mem (fun c hc => ?_) _ (by rfl) _
        rw [beq_eq_false_iff_ne]
        rintro rfl
        exact hcontent hc
      have htail := ih tail.length (by simp [← hn]; omega) tail rfl
      rw [rawLines_append_lineFeed hcontent, List.map_cons, lineContent_append_lineFeed, ← htail, lines, lines,
        hsplit]
      simp only [List.dropLast_cons_of_ne_nil (List.splitOn_ne_nil '\n' tail),
        List.getLast?_cons_of_ne_nil (List.splitOn_ne_nil '\n' tail), List.map_cons, List.cons_append]
    · have hsplit : text.splitOn '\n' = [text] := by
        rw [List.splitOn_eq_splitOnP]
        refine List.splitOnP_eq_singleton fun c hc => ?_
        rw [beq_eq_false_iff_ne]
        rintro rfl
        exact hmem hc
      by_cases hnil : text = []
      · rw [hnil]
        rfl
      · rw [rawLines_of_notMem hnil hmem, lines, hsplit]
        simp [hnil, lineContent_of_notMem hmem]

/-! ## Where lines begin -/

/-- Where a line begins, of the lines counted from 1. -/
def lineStart (text : List Char) (n : ℕ) : ℕ := ((rawLines text).take (n - 1)).flatten.length

lemma count_lineFeed_flatten (h : ∀ line ∈ front, ∃ content, '\n' ∉ content ∧ line = content ++ ['\n']) :
    front.flatten.count '\n' = front.length := by
  induction front with
  | nil => rfl
  | cons line front ih =>
    obtain ⟨content, hcontent, rfl⟩ := h line List.mem_cons_self
    have htail := ih fun line hline => h line (List.mem_cons_of_mem _ hline)
    rw [List.flatten_cons, List.count_append, htail, List.count_append, List.count_eq_zero_of_not_mem hcontent,
      List.count_singleton_self, List.length_cons]
    omega

/-- A character of a line is on that line. -/
lemma lineAt_lineStart_add {n column : ℕ} (h : (rawLines text)[n]? = some line) (hcolumn : column < line.length) :
    lineAt text (lineStart text (n + 1) + column) = n ∧
      text[lineStart text (n + 1) + column]? = (line : List Char)[column]? := by
  obtain ⟨hn, hget⟩ := List.getElem?_eq_some_iff.mp h
  have hsplit : rawLines text = (rawLines text).take n ++ line :: (rawLines text).drop (n + 1) := by
    rw [← hget, ← List.drop_eq_getElem_cons hn, List.take_append_drop]
  obtain ⟨hfront, hraw, htext⟩ := rawLines_eq_append hsplit
  have hstart : lineStart text (n + 1) = ((rawLines text).take n).flatten.length := by
    rw [lineStart, Nat.add_sub_cancel]
  have htail : text.drop ((rawLines text).take n).flatten.length =
      line ++ ((rawLines text).drop (n + 1)).flatten := by
    rw [← flatten_rawLines (text.drop _), hraw, List.flatten_cons]
  have hcount : lineAt line column = 0 := by
    rw [lineAt, List.count_eq_zero]
    obtain ⟨content, tail, hcontent, hline, -, -⟩ | ⟨hline, hnotMem, -, -⟩ := rawLines_eq_cons hraw
    · rw [hline, List.length_append, List.length_singleton] at hcolumn
      rw [hline, List.take_append_of_le_length (by omega)]
      exact fun hmem => hcontent (List.mem_of_mem_take hmem)
    · rw [hline]
      exact fun hmem => hnotMem (List.mem_of_mem_take hmem)
  rw [htail] at htext
  have hcounted : ((rawLines text).take n).flatten.count '\n' = n := by
    rw [count_lineFeed_flatten hfront, List.length_take]
    omega
  rw [hstart]
  constructor
  · have hline := lineAt_append ((rawLines text).take n).flatten (line ++ ((rawLines text).drop (n + 1)).flatten)
      column
    rw [← htext, lineAt_append_of_le (by omega), hcount, hcounted] at hline
    exact hline
  · have hchar : (((rawLines text).take n).flatten ++ (line ++ ((rawLines text).drop (n + 1)).flatten))[
        ((rawLines text).take n).flatten.length + column]? = (line : List Char)[column]? := by
      rw [List.getElem?_append_right (by omega), Nat.add_sub_cancel_left, List.getElem?_append_left hcolumn]
    rwa [← htext] at hchar

/-- A line has a character. -/
lemma ne_nil_of_mem_rawLines (h : line ∈ rawLines text) : line ≠ [] := by
  obtain ⟨front, back, hsplit⟩ := List.append_of_mem h
  obtain ⟨-, hraw, -⟩ := rawLines_eq_append hsplit
  obtain ⟨content, -, -, hline, -, -⟩ | ⟨hline, -, hne, -⟩ := rawLines_eq_cons hraw
  · rw [hline]
    exact List.append_ne_nil_of_right_ne_nil _ (List.cons_ne_nil _ _)
  · rwa [hline]

lemma stripReturn_prefix (line : List Char) : stripReturn line <+: line := by
  by_cases h : ['\r'] <:+ line
  · obtain ⟨front, rfl⟩ := h
    rw [stripReturn, Strings.stripSuffix_append]
    exact List.prefix_append _ _
  · rw [stripReturn, Strings.stripSuffix_of_not_suffix h]
    exact List.prefix_refl _

/-- What a line is without its end begins the line. -/
lemma lineContent_prefix (line : List Char) : lineContent line <+: line := by
  by_cases h : ['\n'] <:+ line
  · obtain ⟨content, rfl⟩ := h
    rw [lineContent_append_lineFeed]
    have hstripped := stripReturn_prefix content
    exact hstripped.trans (List.prefix_append _ _)
  · rw [lineContent, Strings.stripSuffix_of_not_suffix h]

end Lines
end NestWeaver
