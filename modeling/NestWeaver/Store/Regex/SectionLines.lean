import NestWeaver.Parser.Sections

/-!
# The lines of regex matches in notes

`crates/nestweaver-store/src/regex.rs`: the searchable text of a section is its heading, as one ATX line,
and its body, with as many line feeds between them as there are lines from the one to the other in the file.
A match is reported on the line where the text starts, plus the line feeds before the match.

Positions are characters of the text, and line numbers are natural numbers: a note is limited to far fewer
lines than the 32 bits of the source can number.  A section keeps its lines (`KeepsLines`) exactly when its
heading is one line (`keepsLines_iff`).
-/

set_option linter.all false

namespace NestWeaver
namespace SectionLines

open Lines Markdown Strings

/-! ## The code -/

/-- A text that is searched. -/
structure Candidate where
  uid : String
  kind : String
  title : List Char
  location : List Char
  text : List Char
  startLine : ℕ
  deriving DecidableEq, Repr

structure RegexMatch where
  uid : String
  kind : String
  title : List Char
  location : List Char
  line : ℕ
  snippet : List Char
  column : ℕ
  matched : List Char
  deriving DecidableEq, Repr

def u32Max : ℕ := 4294967295

def matchedTextMaxChars : ℕ := 200

/-- A heading as one ATX line. -/
def atxLine (heading : RawHeading) : List Char :=
  List.replicate (min (max heading.level 1) 6) '#' ++ ' ' :: trim heading.text

/-- The searchable text of a section, where it starts, and whether that is more than the stored body. -/
def searchableSection (heading : Option RawHeading) (body : List Char) (bodyStart : ℕ) :
    Option (List Char × ℕ × Bool) :=
  let headingLine := heading.bind fun heading =>
    if trim heading.text = [] then none
    else
      let start := if 0 < heading.startLine then heading.startLine else max bodyStart 1
      some (start, atxLine heading)
  match headingLine with
  | none => if body = [] then none else some (body, bodyStart, false)
  | some (headingStart, headingLine) =>
    if body = [] then some (headingLine, headingStart, true)
    else
      let gap := max (bodyStart - headingStart) 1
      some (headingLine ++ List.replicate (gap - 1) '\n' ++ '\n' :: body, headingStart, true)

def sectionCandidate (uid path : String) (s : RawSection) (heading : Option RawHeading) :
    Option Candidate :=
  (searchableSection heading s.text s.startLine).map fun (text, startLine, _) =>
    { uid := uid
      kind := "Section"
      title := (heading.map fun heading => trim heading.text).getD []
      location := path.toList ++ ':' :: (Nat.repr startLine).toList
      text := text
      startLine := startLine }

/-- The column of a match in its line, counted from 1. -/
def matchColumn (text : List Char) (matchStart : ℕ) : ℕ :=
  min ((text.take matchStart).rtakeWhile (· ≠ '\n')).length (u32Max - 1) + 1

/-- The line of a match, counted from 1, and what stands on it. -/
def lineAndSnippet (text : List Char) (matchStart : ℕ) : ℕ × List Char :=
  let lineIdx := lineAt text matchStart
  let line := trim ((lines text)[lineIdx]?.getD [])
  (lineIdx + 1, line.take matchedTextMaxChars)

/-- The location of a candidate with another line, if it has one. -/
def relocate (location : List Char) (line : ℕ) : List Char :=
  match rsplitOnce ':' location with
  | some (file, digits) =>
    if digits ≠ [] ∧ digits.all Char.isDigit then file ++ ':' :: (Nat.repr line).toList else location
  | none => location

/-- A match of `length` characters from `start` on, as it is reported. -/
def regexMatch (c : Candidate) (start length : ℕ) : RegexMatch :=
  let (lineInText, snippet) := lineAndSnippet c.text start
  let fileLine := c.startLine + (lineInText - 1)
  { uid := c.uid
    kind := c.kind
    title := c.title
    location := relocate c.location fileLine
    line := fileLine
    snippet := snippet
    column := matchColumn c.text start
    matched := ((c.text.drop start).take length).take matchedTextMaxChars }

/-! ## The lines of a section -/

/-- The first line of a section, which is that of its heading. -/
def firstLine (note : Source) (s : RawSection) : ℕ :=
  ((note.headingOf s).map RawHeading.startLine).getD s.startLine

/-- Matches are reported where they are in the file: in the body on the line that stands there, in the
heading on the line of the heading, and nowhere outside the section. -/
structure KeepsLines (note : Source) (s : RawSection) (c : Candidate) : Prop where
  body : s.text ≠ [] → ∀ j ≤ s.text.length, ∀ length,
    let line := (regexMatch c (c.text.length - s.text.length + j) length).line
    line = s.startLine + lineAt s.text j ∧
      note.fileLines[line - 1]? = (s.text.splitOn '\n')[lineAt s.text j]?
  heading : ∀ h, note.headingOf s = some h → trim h.text ≠ [] → ∀ i ≤ (atxLine h).length, ∀ length,
    (regexMatch c i length).line = h.startLine
  within : ∀ i ≤ c.text.length, ∀ length,
    firstLine note s ≤ (regexMatch c i length).line ∧ (regexMatch c i length).line ≤ s.endLine

lemma line_regexMatch (c : Candidate) (start length : ℕ) :
    (regexMatch c start length).line = c.startLine + lineAt c.text start := rfl

variable {note : Source} {s : RawSection} {uid path : String} {c : Candidate}

/-- The text of a section without a heading is its body. -/
lemma candidate_of_body (hblank : ∀ h, note.headingOf s = some h → trim h.text = [])
    (hc : sectionCandidate uid path s (note.headingOf s) = some c) :
    s.text ≠ [] ∧ c.text = s.text ∧ c.startLine = s.startLine := by
  have hnone : ((note.headingOf s).bind fun heading =>
      if trim heading.text = [] then none
      else some (if 0 < heading.startLine then heading.startLine else max s.startLine 1,
        atxLine heading)) = none := by
    cases hh : note.headingOf s with
    | none => rfl
    | some h => exact if_pos (hblank h hh)
  rw [sectionCandidate, searchableSection, hnone] at hc
  by_cases htext : s.text = []
  · simp [htext] at hc
  · simp only [htext, if_false, Option.map_some, Option.some_inj] at hc
    rw [← hc]
    exact ⟨htext, rfl, rfl⟩

/-- Else the heading comes first, and the body so many lines later as in the file. -/
lemma candidate_of_heading (hs : s ∈ note.parsedSections) {h : RawHeading}
    (hh : note.headingOf s = some h) (htext : trim h.text ≠ [])
    (hc : sectionCandidate uid path s (note.headingOf s) = some c) :
    c.startLine = h.startLine ∧ c.text = atxLine h ++ if s.text = [] then []
      else List.replicate (s.startLine - h.startLine) '\n' ++ s.text := by
  obtain ⟨hone, hlt⟩ := Source.heading_of_section hs hh
  have hsome : ((note.headingOf s).bind fun heading =>
      if trim heading.text = [] then none
      else some (if 0 < heading.startLine then heading.startLine else max s.startLine 1,
        atxLine heading)) = some (h.startLine, atxLine h) := by
    rw [hh, Option.bind_some, if_neg htext, if_pos (Nat.lt_of_lt_of_le Nat.zero_lt_one hone)]
  rw [sectionCandidate, searchableSection, hsome] at hc
  by_cases hbody : s.text = []
  · simp only [hbody, if_true, Option.map_some, Option.some_inj] at hc
    rw [← hc, if_pos hbody, List.append_nil]
    exact ⟨rfl, rfl⟩
  · simp only [hbody, if_false, Option.map_some, Option.some_inj] at hc
    rw [← hc, if_neg hbody]
    refine ⟨rfl, ?_⟩
    dsimp only
    have hgap : max (s.startLine - h.startLine) 1 - 1 + 1 = s.startLine - h.startLine := by omega
    rw [← hgap, List.replicate_succ', List.append_assoc, List.append_assoc]
    simp

/-- The line feeds of a heading line are those of its text. -/
lemma count_atxLine (h : RawHeading) : (atxLine h).count '\n' = (trim h.text).count '\n' := by
  rw [atxLine, List.count_append, List.count_replicate, List.count_cons_of_ne (by decide)]
  simp

/-- What a match in the body means for the file. -/
lemma line_of_body (hs : s ∈ note.parsedSections) (htext : s.text ≠ []) (j : ℕ) :
    note.fileLines[s.startLine + lineAt s.text j - 1]? = (s.text.splitOn '\n')[lineAt s.text j]? ∧
      s.startLine + lineAt s.text j ≤ s.endLine := by
  refine Source.line_of_section hs htext ?_
  rw [length_splitOn]
  exact Nat.lt_succ_of_le (lineAt_le _ _)

lemma lineAt_length (text : List Char) : lineAt text text.length = text.count '\n' := by
  rw [lineAt, List.take_length]

/-- A body that is searched alone keeps its lines. -/
lemma keepsLines_of_body (hs : s ∈ note.parsedSections)
    (hblank : ∀ h, note.headingOf s = some h → trim h.text = [])
    (hc : sectionCandidate uid path s (note.headingOf s) = some c) : KeepsLines note s c := by
  obtain ⟨htext, hcandidate, hstart⟩ := candidate_of_body hblank hc
  refine ⟨fun _ j _ _ => ?_, fun h hh hne => absurd (hblank h hh) hne, fun i _ _ => ?_⟩
  · dsimp only
    rw [line_regexMatch, hcandidate, hstart, Nat.sub_self, Nat.zero_add]
    exact ⟨rfl, (line_of_body hs htext j).1⟩
  · rw [line_regexMatch, hcandidate, hstart]
    refine ⟨?_, (line_of_body hs htext i).2⟩
    have hfirst : firstLine note s ≤ s.startLine := by
      rw [firstLine]
      cases hh : note.headingOf s with
      | none => exact Nat.le_refl _
      | some h => exact (Source.heading_of_section hs hh).2.le
    omega

/-- A heading that is one line and its body keep their lines. -/
lemma keepsLines_of_heading (hs : s ∈ note.parsedSections) {h : RawHeading}
    (hh : note.headingOf s = some h) (hne : trim h.text ≠ []) (hline : '\n' ∉ trim h.text)
    (hc : sectionCandidate uid path s (note.headingOf s) = some c) : KeepsLines note s c := by
  obtain ⟨hstart, htext⟩ := candidate_of_heading hs hh hne hc
  obtain ⟨-, hlt⟩ := Source.heading_of_section hs hh
  have hcount : (atxLine h).count '\n' = 0 := by
    rw [count_atxLine]
    exact List.count_eq_zero.mpr hline
  have hfirst : firstLine note s = h.startLine := by rw [firstLine, hh]; rfl
  refine ⟨fun hbody j _ length => ?_, fun h' hh' _ i hi _ => ?_, fun i _ _ => ?_⟩
  · -- all of the heading and of the line feeds is before the body
    rw [if_neg hbody] at htext
    dsimp only
    have hposition : c.text.length - s.text.length + j =
        (atxLine h).length + ((s.startLine - h.startLine) + j) := by
      rw [htext, List.length_append, List.length_append, List.length_replicate]
      omega
    have hlineAt : lineAt c.text (c.text.length - s.text.length + j) =
        s.startLine - h.startLine + lineAt s.text j := by
      have hgap : lineAt (List.replicate (s.startLine - h.startLine) '\n' ++ s.text)
          (s.startLine - h.startLine + j) = s.startLine - h.startLine + lineAt s.text j := by
        have happend := lineAt_append (List.replicate (s.startLine - h.startLine) '\n') s.text j
        rwa [List.length_replicate, List.count_replicate_self] at happend
      rw [hposition, htext, lineAt_append, hcount, hgap, Nat.zero_add]
    have hequal : (regexMatch c (c.text.length - s.text.length + j) length).line =
        s.startLine + lineAt s.text j := by
      rw [line_regexMatch, hlineAt, hstart]
      omega
    rw [hequal]
    exact ⟨rfl, (line_of_body hs hbody j).1⟩
  · obtain rfl : h = h' := Option.some_inj.mp (hh.symm.trans hh')
    have hzero : lineAt (atxLine h) i = 0 := Nat.le_zero.mp ((lineAt_le _ _).trans hcount.le)
    rw [line_regexMatch, hstart, htext, lineAt_append_of_le hi, hzero]
    rfl
  · rw [line_regexMatch, hstart, hfirst]
    refine ⟨Nat.le_add_right _ _, ?_⟩
    have hle := lineAt_le c.text i
    rw [htext] at hle ⊢
    by_cases hbody : s.text = []
    · rw [if_pos hbody, List.append_nil] at hle ⊢
      have hend := Source.startLine_le_endLine hs
      omega
    · rw [if_neg hbody] at hle ⊢
      rw [List.count_append, List.count_append, hcount, List.count_replicate_self] at hle
      have hend := (line_of_body hs hbody s.text.length).2
      rw [lineAt_length] at hend
      omega

/-- **When matches are reported where they are.**  Exactly when the heading of the section has no line feed
in its text. -/
theorem keepsLines_iff (note : Source) (s : RawSection) (hs : s ∈ note.parsedSections)
    (uid path : String) (c : Candidate)
    (hc : sectionCandidate uid path s (note.headingOf s) = some c) :
    KeepsLines note s c ↔ ∀ h, note.headingOf s = some h → '\n' ∉ trim h.text := by
  constructor
  · intro hkeeps h hh hline
    have hne : trim h.text ≠ [] := fun hnil => absurd (hnil ▸ hline) List.not_mem_nil
    obtain ⟨hstart, htext⟩ := candidate_of_heading hs hh hne hc
    -- a match at the end of the heading
    have hreported := hkeeps.heading h hh hne (atxLine h).length (Nat.le_refl _) 0
    rw [line_regexMatch, hstart, htext, lineAt_append_of_le (Nat.le_refl _), lineAt_length,
      count_atxLine] at hreported
    have hpos := List.count_pos_iff.mpr hline
    omega
  · intro hline
    by_cases hblank : ∀ h, note.headingOf s = some h → trim h.text = []
    · exact keepsLines_of_body hs hblank hc
    · push Not at hblank
      obtain ⟨h, hh, hne⟩ := hblank
      exact keepsLines_of_heading hs hh hne (hline h hh) hc

/-- A note that begins with a heading of two words, as the Markdown parser reads it, and a line below. -/
def headed (heading : String) (source : String) : Source where
  frontmatter := []
  body := source.toList ++ "\nx".toList
  headings := [⟨1, heading.toList, 1, 1⟩]
  placed := by simp

/-- The section of the line below. -/
def below : RawSection := ⟨some 0, 2, 2, ['x']⟩

theorem keepsLines_iff_headed : KeepsLines (headed "Alpha Beta" "# Alpha Beta") below
    ⟨"s", "Section", "Alpha Beta".toList, "a.md:1".toList, "# Alpha Beta\nx".toList, 1⟩ := by
  refine (keepsLines_iff (headed "Alpha Beta" "# Alpha Beta") below (by decide) "s" "a.md" _
    (by decide)).mpr fun h hh => ?_
  obtain rfl : h = ⟨1, "Alpha Beta".toList, 1, 1⟩ := Option.some_inj.mp (hh.symm.trans (by decide))
  decide

/-- A line feed in the heading, which its source spells as an entity, and the line below is reported as
line 3, which the file does not have. -/
theorem keepsLines_lineFeed : ∃ c, sectionCandidate "s" "a.md" below
      ((headed "Alpha\nBeta" "# Alpha&#10;Beta").headingOf below) = some c ∧
    below ∈ (headed "Alpha\nBeta" "# Alpha&#10;Beta").parsedSections ∧
    (regexMatch c 13 1).line = 3 ∧ (regexMatch c 13 1).matched = ['x'] ∧
    ¬ KeepsLines (headed "Alpha\nBeta" "# Alpha&#10;Beta") below c := by
  refine ⟨⟨"s", "Section", "Alpha\nBeta".toList, "a.md:1".toList, "# Alpha\nBeta\nx".toList, 1⟩,
    by decide, by decide, by decide, by decide, fun h => ?_⟩
  have hline := (h.body (by decide) 0 (by decide) 1).1
  revert hline
  decide

end SectionLines
end NestWeaver
