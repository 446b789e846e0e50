import NestWeaver.Framework.Lines

/-!
# Sections of a note

`crates/nestweaver-parser/src/markdown.rs`: the body of a note is cut into sections at its headings.  Where
the headings stand is for the Markdown parser to say, and line numbers of the body become those of the file
by the length of the frontmatter.

The text of a section is the lines of the file from its start line on (`line_of_section`).
-/

set_option linter.all false

namespace NestWeaver
namespace Markdown

open Lines

structure RawHeading where
  level : ℕ
  text : List Char
  startLine : ℕ
  endLine : ℕ
  deriving DecidableEq, Repr

structure RawSection where
  headingIdx : Option ℕ
  startLine : ℕ
  endLine : ℕ
  text : List Char
  deriving DecidableEq, Repr

/-! ## The code -/

section Code

variable (lines : List (List Char))

/-- The lines from one to another, both counted from 1. -/
def sliceLines (start stop : ℕ) : List Char :=
  if start = 0 ∨ lines.length < start then []
  else
    let out := ((lines.take stop).drop (start - 1)).flatMap fun line => line ++ ['\n']
    if out.getLast? = some '\n' then out.dropLast else out

/-- What stands before the first heading, if it is not blank. -/
def preamble (headings : List RawHeading) : Option RawSection :=
  let preambleEnd := match headings.head? with
    | some first => first.startLine - 1
    | none => lines.length
  let text := sliceLines lines 1 preambleEnd
  if 1 ≤ preambleEnd ∧ Strings.trim text ≠ [] then some ⟨none, 1, preambleEnd, text⟩ else none

/-- What stands between a heading and the next. -/
def headingSection (idx : ℕ) (h : RawHeading) (next : Option RawHeading) : RawSection :=
  let bodyStart := h.endLine + 1
  let bodyEnd := match next with
    | some next => next.startLine - 1
    | none => lines.length
  if lines.length < bodyStart then ⟨some idx, bodyStart, bodyStart, []⟩
  else ⟨some idx, bodyStart, max bodyEnd bodyStart,
    if bodyStart ≤ bodyEnd then sliceLines lines bodyStart bodyEnd else []⟩

def headingSections : ℕ → List RawHeading → List RawSection
  | _, [] => []
  | idx, h :: rest => headingSection lines idx h rest.head? :: headingSections (idx + 1) rest

def extractSections (headings : List RawHeading) : List RawSection :=
  (preamble lines headings).toList ++ headingSections lines 0 headings

end Code

/-- A note: the lines of its frontmatter, its body, and where the Markdown parser finds headings in it. -/
structure Source where
  frontmatter : List (List Char)
  body : List Char
  headings : List RawHeading
  placed : ∀ h ∈ headings, 1 ≤ h.startLine ∧ h.startLine ≤ h.endLine

namespace Source

variable (note : Source)

/-- The lines of the file. -/
def fileLines : List (List Char) := note.frontmatter ++ lines note.body

/-- Line numbers of the body become those of the file. -/
def parsedHeadings : List RawHeading :=
  note.headings.map fun h => { h with
    startLine := h.startLine + note.frontmatter.length
    endLine := h.endLine + note.frontmatter.length }

def parsedSections : List RawSection :=
  (extractSections (lines note.body) note.headings).map fun s => { s with
    startLine := s.startLine + note.frontmatter.length
    endLine := s.endLine + note.frontmatter.length }

/-- The heading of a section. -/
def headingOf (s : RawSection) : Option RawHeading :=
  s.headingIdx.bind fun idx => note.parsedHeadings[idx]?

end Source

/-! ## The lines of a section -/

/-- The lines of a section are those from its start line on, and it ends with or after them. -/
structure Covers (lines : List (List Char)) (s : RawSection) : Prop where
  start : 1 ≤ s.startLine
  le : s.startLine ≤ s.endLine
  slice : s.text ≠ [] → ∃ slice, slice ≠ [] ∧ s.text = joinLines slice ∧
    slice <+: lines.drop (s.startLine - 1) ∧ s.startLine + slice.length ≤ s.endLine + 1

variable {ls : List (List Char)} {headings : List RawHeading} {s : RawSection}

lemma sliceLines_eq {start stop : ℕ} (hstart : 1 ≤ start) (hlength : start ≤ ls.length)
    (hstop : start ≤ stop) : ∃ slice, slice ≠ [] ∧ sliceLines ls start stop = joinLines slice ∧
      slice <+: ls.drop (start - 1) ∧ start + slice.length ≤ stop + 1 := by
  have hslice : (ls.take stop).drop (start - 1) ≠ [] := by
    rw [ne_eq, List.drop_eq_nil_iff, List.length_take]
    omega
  refine ⟨(ls.take stop).drop (start - 1), hslice, ?_, ?_, ?_⟩
  · rw [sliceLines, if_neg (by omega)]
    simp only [flatMap_lineFeed hslice]
    rw [List.getLast?_concat, if_pos rfl, List.dropLast_concat]
  · rw [List.drop_take]
    exact List.take_prefix _ _
  · rw [List.length_drop, List.length_take]
    omega

lemma covers_preamble (h : preamble ls headings = some s) : Covers ls s := by
  simp only [preamble] at h
  set preambleEnd := match headings.head? with
    | some first => first.startLine - 1
    | none => ls.length
  split_ifs at h with hend
  obtain rfl := Option.some_inj.mp h
  refine ⟨Nat.le_refl 1, hend.1, fun htext => ?_⟩
  refine sliceLines_eq (Nat.le_refl 1) ?_ hend.1
  by_contra hlength
  exact htext (if_pos (.inr (by omega)))

lemma covers_headingSection (idx : ℕ) (h : RawHeading) (next : Option RawHeading) :
    Covers ls (headingSection ls idx h next) := by
  unfold headingSection
  set bodyEnd := match next with
    | some next => next.startLine - 1
    | none => ls.length
  dsimp only
  by_cases hlength : ls.length < h.endLine + 1
  · rw [if_pos hlength]
    exact ⟨by simp, Nat.le_refl _, fun htext => absurd rfl htext⟩
  · rw [if_neg hlength]
    refine ⟨by simp, Nat.le_max_right _ _, fun htext => ?_⟩
    dsimp only at htext ⊢
    split_ifs at htext ⊢ with hend
    · rw [Nat.max_eq_left hend]
      exact sliceLines_eq (by omega) (by omega) hend
    · exact absurd rfl htext

lemma mem_headingSections {k : ℕ} (hs : s ∈ headingSections ls k headings) :
    Covers ls s ∧ ∃ i h, headings[i]? = some h ∧ s.headingIdx = some (k + i) ∧
      s.startLine = h.endLine + 1 := by
  induction headings generalizing k with
  | nil => exact absurd hs List.not_mem_nil
  | cons h rest ih =>
    obtain rfl | hs := List.mem_cons.mp hs
    · refine ⟨covers_headingSection _ _ _, 0, h, rfl, ?_, ?_⟩
      · unfold headingSection
        dsimp only
        split_ifs <;> rfl
      · unfold headingSection
        dsimp only
        split_ifs <;> rfl
    · obtain ⟨hcovers, i, h', hi, hidx, hstart⟩ := ih hs
      exact ⟨hcovers, i + 1, h', hi, by rw [hidx]; congr 1; omega, hstart⟩

lemma mem_extractSections (hs : s ∈ extractSections ls headings) :
    Covers ls s ∧ ∀ idx, s.headingIdx = some idx →
      ∃ h, headings[idx]? = some h ∧ s.startLine = h.endLine + 1 := by
  rw [extractSections, List.mem_append, Option.mem_toList] at hs
  obtain hs | hs := hs
  · refine ⟨covers_preamble hs, fun idx hidx => ?_⟩
    simp only [preamble] at hs
    split_ifs at hs
    rw [← Option.some_inj.mp hs] at hidx
    cases hidx
  · obtain ⟨hcovers, i, h, hi, hidx, hstart⟩ := mem_headingSections hs
    refine ⟨hcovers, fun idx hidx' => ⟨h, ?_, hstart⟩⟩
    rw [hidx, Option.some_inj] at hidx'
    rw [← hidx', Nat.zero_add, hi]

namespace Source

variable {note : Source}

/-- **The lines of a section** are lines of the file, from the start line of the section on. -/
lemma line_of_section (hs : s ∈ note.parsedSections) (htext : s.text ≠ []) {k : ℕ}
    (hk : k < (s.text.splitOn '\n').length) :
    note.fileLines[s.startLine + k - 1]? = (s.text.splitOn '\n')[k]? ∧ s.startLine + k ≤ s.endLine := by
  obtain ⟨raw, hraw, rfl⟩ := List.mem_map.mp hs
  obtain ⟨⟨hstart, -, hcovers⟩, -⟩ := mem_extractSections hraw
  obtain ⟨slice, hslice, htext, hbegins, hend⟩ := hcovers htext
  have hlines : ∀ line ∈ slice, '\n' ∉ line := fun line hline =>
    notMem_of_mem_lines (List.mem_of_mem_drop (hbegins.subset hline))
  dsimp only at hk ⊢
  rw [htext, splitOn_joinLines hslice hlines] at hk ⊢
  refine ⟨?_, by omega⟩
  have hposition : raw.startLine + note.frontmatter.length + k - 1 =
      note.frontmatter.length + (raw.startLine - 1 + k) := by omega
  rw [fileLines, hposition, List.getElem?_append_right (by omega), Nat.add_sub_cancel_left,
    ← List.getElem?_drop]
  obtain ⟨rest, hrest⟩ := hbegins
  rw [← hrest, List.getElem?_append_left hk]

/-- A section begins after its heading. -/
lemma heading_of_section (hs : s ∈ note.parsedSections) {h : RawHeading} (hh : note.headingOf s = some h) :
    1 ≤ h.startLine ∧ h.startLine < s.startLine := by
  obtain ⟨raw, hraw, rfl⟩ := List.mem_map.mp hs
  obtain ⟨idx, hidx, hget⟩ := Option.bind_eq_some_iff.mp hh
  obtain ⟨h', hget', hstart⟩ := (mem_extractSections hraw).2 idx hidx
  rw [parsedHeadings, List.getElem?_map, hget'] at hget
  obtain rfl := Option.some_inj.mp hget
  obtain ⟨hone, hle⟩ := note.placed h' (List.mem_of_getElem? hget')
  dsimp only
  omega

lemma startLine_le_endLine (hs : s ∈ note.parsedSections) : s.startLine ≤ s.endLine := by
  obtain ⟨raw, hraw, rfl⟩ := List.mem_map.mp hs
  exact Nat.add_le_add_right (mem_extractSections hraw).1.le _

end Source

end Markdown
end NestWeaver
