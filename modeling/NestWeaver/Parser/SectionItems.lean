import NestWeaver.Parser.Frontmatter
import NestWeaver.Parser.HeadingSlugs
import NestWeaver.Parser.SectionPartition

/-!
# What is found in sections

`extract_wikilinks`, `extract_inline_tags` and `extract_md_links` of
`crates/nestweaver-parser/src/markdown.rs`: the text of a section is scanned line by line, with code blanked
out.  What is found names the section by its index, and a line by its number in the body.

The scanners also say at which column of the line they found something, and the code drops it.

Whatever is found names the section that its line is a line of (`extractSections_partition`).
-/

set_option linter.all false

namespace NestWeaver
namespace Markdown

open ByteOffsets Lines

/-! ## Code -/

/-- Blanks the code spans of a line.  The count is of the characters that are left of a span. -/
def blankSpans : ℕ → List Char → List Char
  | _, [] => []
  | k + 1, _ :: rest => ' ' :: blankSpans k rest
  | 0, c :: rest =>
    if c = '`' then
      if '`' ∈ rest then ' ' :: blankSpans (rest.idxOf '`' + 1) rest else c :: blankSpans 0 rest
    else c :: blankSpans 0 rest

/-- Blanks fenced code, and the code spans of other lines. -/
def stripCodeLines : Bool → List (List Char) → List (List Char)
  | _, [] => []
  | inFence, line :: rest =>
    if ['`', '`', '`'] <+: line.dropWhile isWhiteSpace then [] :: stripCodeLines (!inFence) rest
    else (if inFence then [] else blankSpans 0 line) :: stripCodeLines inFence rest

def stripCode (text : List Char) : List Char :=
  (stripCodeLines false (lines text)).flatMap fun line => line ++ ['\n']

/-- What is found in the lines of the sections. -/
def scanSections {β : Type*} (scan : ℕ → ℕ → List Char → List β) (sections : List RawSection) : List β :=
  sections.zipIdx.flatMap fun (sec, secIdx) =>
    (lines (stripCode sec.text)).zipIdx.flatMap fun (lineText, lineOffset) =>
      scan secIdx (sec.startLine + lineOffset) lineText

/-! ## Wikilinks -/

structure RawWikilink where
  markdownUrl : Bool
  target : List Char
  headingAnchor : Option (List Char)
  display : Option (List Char)
  transclude : Bool
  sectionIdx : ℕ
  line : ℕ
  vaultPrefix : Option (List Char)
  deriving DecidableEq, Repr

/-- What stands before the brackets that close a wikilink. -/
def findClose : List Char → Option (List Char)
  | [] => none
  | [_] => none
  | c :: c' :: rest =>
    if c = '\n' then none
    else if c = ']' ∧ c' = ']' then some []
    else (findClose (c' :: rest)).map (c :: ·)

/-- Whether a wikilink opens here, and if so, whether it transcludes and how long its opening is. -/
def wikilinkOpening (text : List Char) : Option (Bool × ℕ) :=
  if ['!', '[', '['] <+: text then some (true, 3)
  else if ['[', '['] <+: text then some (false, 2)
  else none

/-- The prefix of another vault, and the target in it. -/
def splitVault (target : List Char) : Option (List Char) × List Char :=
  match Strings.splitOnce [':'] target with
  | some (vault, rest) => if '/' ∉ vault ∧ 1 < byteLength vault then (some vault, rest) else (none, target)
  | none => (none, target)

/-- The wikilink that stands between brackets. -/
def wikilinkInside (transclude : Bool) (sectionIdx line : ℕ) (inside : List Char) : Option RawWikilink :=
  let (targetPart, display) := match Strings.splitOnce ['|'] inside with
    | some (t, d) =>
      (trimEnd ((Strings.stripSuffix ['\\'] (Strings.trim t)).getD (Strings.trim t)), some (Strings.trim d))
    | none => (Strings.trim inside, none)
  let (target, anchor) := match Strings.splitOnce ['#'] targetPart with
    | some (t, a) => (Strings.trim t, some (Strings.trim a))
    | none => (targetPart, none)
  if targetPart = [] ∨ target = [] then none
  else some ⟨false, (splitVault target).2, anchor, display, transclude, sectionIdx, line, (splitVault target).1⟩

/-- The wikilinks of a line with their columns.  So many characters are left of what has been read. -/
def wikilinksOfLine (sectionIdx line : ℕ) (left column : ℕ) : List Char → List (ℕ × RawWikilink)
  | [] => []
  | c :: rest =>
    match left with
    | left + 1 => wikilinksOfLine sectionIdx line left (column + 1) rest
    | 0 =>
      match wikilinkOpening (c :: rest) with
      | none => wikilinksOfLine sectionIdx line 0 (column + 1) rest
      | some (transclude, width) =>
        match findClose ((c :: rest).drop width) with
        | none => wikilinksOfLine sectionIdx line (width - 1) (column + 1) rest
        | some inside =>
          (wikilinkInside transclude sectionIdx line inside).toList.map (column, ·) ++
            wikilinksOfLine sectionIdx line (width + inside.length + 1) (column + 1) rest

def extractWikilinks (sections : List RawSection) : List RawWikilink :=
  scanSections (fun secIdx line lineText => (wikilinksOfLine secIdx line 0 0 lineText).map Prod.snd) sections

/-! ## Tags -/

/-- The Unicode tables that tags are read with. -/
structure TagTables extends CharTables where
  isAlphabetic : Char → Bool
  lowercase : List Char → List Char

inductive TagSource where
  | inlined
  | frontmatter
  deriving DecidableEq, Repr

structure RawTag where
  name : List Char
  source : TagSource
  sectionIdx : Option ℕ
  line : ℕ
  deriving DecidableEq, Repr

def isAsciiHexdigit (c : Char) : Bool :=
  c.isDigit || ('a' ≤ c && c ≤ 'f') || ('A' ≤ c && c ≤ 'F')

def isHexColour (name : List Char) : Bool :=
  [3, 6, 8].contains (byteLength name) && name.all isAsciiHexdigit && name.any Char.isDigit

section Tags

variable (tables : TagTables)

def isTagChar (c : Char) : Bool := tables.isAlphanumeric c || ['-', '_', '/'].contains c

/-- A tag begins a line, or stands behind one of these. -/
def isTagBoundary (prev : Option Char) : Bool := prev.all [' ', '\t', '(', '[', ',', ';'].contains

/-- The name of a tag, unless it is no name. -/
def tagName (word : List Char) : Option (List Char) :=
  let name := tables.lowercase word
  if name ≠ [] ∧ name.any tables.isAlphabetic = true ∧ isHexColour name = false then some name else none

/-- The tags of a line with their columns.  So many characters are left of what has been read. -/
def tagsOfLine (left column : ℕ) (prev2 prev : Option Char) : List Char → List (ℕ × List Char)
  | [] => []
  | c :: rest =>
    match left with
    | left + 1 => tagsOfLine left (column + 1) prev2 prev rest
    | 0 =>
      let word := rest.takeWhile (isTagChar tables)
      let isMarkdownAnchor := prev = some '(' ∧ prev2 = some ']'
      if c = '#' ∧ isTagBoundary prev = true ∧ ¬isMarkdownAnchor ∧ word ≠ [] then
        (tagName tables word).toList.map (column, ·) ++
          tagsOfLine word.length (column + 1) none word.getLast? rest
      else tagsOfLine 0 (column + 1) prev (some c) rest

def extractInlineTags (sections : List RawSection) : List RawTag :=
  scanSections (fun secIdx line lineText => (tagsOfLine tables 0 0 none none lineText).map fun tag =>
    ⟨tag.2, .inlined, some secIdx, line⟩) sections

end Tags

/-! ## Links of Markdown -/

/-- A link of the syntax tree, with the text that is collected from it. -/
structure LinkNode where
  url : List Char
  displayText : List Char
  line : ℕ
  deriving DecidableEq, Repr

def mdLink (sections : List RawSection) (node : LinkNode) : Option RawWikilink :=
  let (pathPart, fragment) := match Strings.splitOnce ['#'] node.url with
    | some (p, f) => (p, some f)
    | none => (node.url, none)
  if ¬['.', 'm', 'd'] <:+ pathPart ∨ [':', '/', '/'] <:+: pathPart ∨ ['/', '/'] <+: pathPart then none
  else some {
    markdownUrl := true
    target := pathPart
    headingAnchor := fragment
    display := if node.displayText = [] then none else some node.displayText
    transclude := false
    sectionIdx := (sections.findIdx? fun s => s.startLine ≤ node.line ∧ node.line ≤ s.endLine).getD 0
    line := node.line
    vaultPrefix := none }

def extractMdLinks (nodes : List LinkNode) (sections : List RawSection) : List RawWikilink :=
  nodes.filterMap (mdLink sections)

/-! ## The lines that are scanned -/

variable {β : Type*} {ls : List (List Char)} {headings : List RawHeading} {sections : List RawSection}
variable {s : RawSection} {own : List (List Char)} {scan : ℕ → ℕ → List Char → List β} {b : β}

lemma length_stripCodeLines (inFence : Bool) (ls : List (List Char)) :
    (stripCodeLines inFence ls).length = ls.length := by
  induction ls generalizing inFence with
  | nil => rfl
  | cons line ls ih =>
    rw [stripCodeLines]
    split_ifs <;> rw [List.length_cons, ih, List.length_cons]

lemma lineFeed_notMem_blankSpans {line : List Char} (h : '\n' ∉ line) (k : ℕ) : '\n' ∉ blankSpans k line := by
  induction line generalizing k with
  | nil => cases k <;> exact List.not_mem_nil
  | cons c rest ih =>
    obtain ⟨hc, hrest⟩ := not_or.mp (mt List.mem_cons.mpr h)
    cases k with
    | zero =>
      rw [blankSpans]
      split_ifs
      · exact List.not_mem_cons_of_ne_of_not_mem (by decide) (ih hrest _)
      · exact List.not_mem_cons_of_ne_of_not_mem hc (ih hrest _)
      · exact List.not_mem_cons_of_ne_of_not_mem hc (ih hrest _)
    | succ k => exact List.not_mem_cons_of_ne_of_not_mem (by decide) (ih hrest k)

lemma lineFeed_notMem_stripCodeLines (h : ∀ line ∈ ls, '\n' ∉ line) (inFence : Bool) :
    ∀ line ∈ stripCodeLines inFence ls, '\n' ∉ line := by
  induction ls generalizing inFence with
  | nil => exact fun line hline => absurd hline List.not_mem_nil
  | cons first ls ih =>
    have htail := ih fun line hline => h line (List.mem_cons_of_mem _ hline)
    have hfirst := lineFeed_notMem_blankSpans (h first List.mem_cons_self) 0
    intro line hline
    rw [stripCodeLines] at hline
    split_ifs at hline
    all_goals
      obtain rfl | hline := List.mem_cons.mp hline
      · first | exact hfirst | exact List.not_mem_nil
      · exact htail _ line hline

/-- Code is blanked line by line. -/
lemma lines_stripCode (text : List Char) :
    lines (stripCode text) = (stripCodeLines false (lines text)).map stripReturn := by
  have hbreaks : ∀ line ∈ lines text, '\n' ∉ line := fun line hline => notMem_of_mem_lines hline
  have hlines := lineFeed_notMem_stripCodeLines hbreaks false
  rw [stripCode, lines_eq_map_rawLines]
  generalize stripCodeLines false (lines text) = ls at hlines
  induction ls with
  | nil => rfl
  | cons line ls ih =>
    rw [List.flatMap_cons, List.append_assoc, List.singleton_append,
      rawLines_append_lineFeed (hlines line List.mem_cons_self), List.map_cons, lineContent_append_lineFeed,
      ih fun line hline => hlines line (List.mem_cons_of_mem _ hline), List.map_cons]

lemma length_lines_le (h : ∀ line ∈ own, '\n' ∉ line) : (lines (joinLines own)).length ≤ own.length := by
  by_cases hown : own = []
  · rw [hown]
    rfl
  · rw [lines, splitOn_joinLines hown h, List.length_append, List.length_map, List.length_dropLast]
    have hpos := List.length_pos_of_ne_nil hown
    split_ifs
    · simp
    · have hlast : own.getLast?.toList.length ≤ 1 := by cases own.getLast? <;> simp
      omega

lemma mem_scanSections : b ∈ scanSections scan sections ↔ ∃ idx s offset text, sections[idx]? = some s ∧
    (lines (stripCode s.text))[offset]? = some text ∧ b ∈ scan idx (s.startLine + offset) text := by
  simp only [scanSections, List.mem_flatMap, Prod.exists, List.mem_zipIdx_iff_getElem?]
  constructor
  · rintro ⟨s, idx, hs, text, offset, htext, hb⟩
    exact ⟨idx, s, offset, text, hs, htext, hb⟩
  · rintro ⟨idx, s, offset, text, hs, htext, hb⟩
    exact ⟨s, idx, hs, text, offset, htext, hb⟩

/-! ## The sections that are named -/

/-- The preamble and the sections behind the headings have lines of the body. -/
lemma hasLines_extractSections {k : ℕ} (hs : (extractSections ls headings)[k]? = some s) :
    ∃ own, HasLines ls s own ∧ ∀ line ∈ own, line ∈ ls := by
  obtain ⟨hk, hget⟩ := List.getElem?_eq_some_iff.mp hs
  have hmem : s ∈ (preamble ls headings).toList ++ headingSections ls 0 headings :=
    hget ▸ List.getElem_mem hk
  have hown : ∃ own, HasLines ls s own := by
    obtain hpreamble | hsection := List.mem_append.mp hmem
    · exact ⟨_, (hasLines_preamble (Option.mem_toList.mp hpreamble)).2⟩
    · obtain ⟨idx, hidx⟩ := List.mem_iff_getElem?.mp hsection
      obtain ⟨-, own, -, -, -, -, hlines⟩ := hasLines_headingSections hidx
      exact ⟨own, hlines⟩
  obtain ⟨own, hlines⟩ := hown
  refine ⟨own, hlines, fun line hline => ?_⟩
  rw [hlines.span (List.ne_nil_of_mem hline)] at hline
  exact List.mem_of_mem_take (List.mem_of_mem_drop hline)

/-- Whatever is found in a line of a section is found in a line of the body that the section has. -/
lemma owner_of_mem_scanSections (hls : ∀ line ∈ ls, '\n' ∉ line)
    (hb : b ∈ scanSections scan (extractSections ls headings)) :
    ∃ idx line text, Owner ls (extractSections ls headings) line idx ∧ b ∈ scan idx line text := by
  obtain ⟨idx, s, offset, text, hs, htext, hb⟩ := mem_scanSections.mp hb
  obtain ⟨own, hlines, hown⟩ := hasLines_extractSections hs
  have hoffset : offset < own.length := by
    have hlt := (List.getElem?_eq_some_iff.mp htext).1
    rw [lines_stripCode, List.length_map, length_stripCodeLines, hlines.text] at hlt
    exact Nat.lt_of_lt_of_le hlt (length_lines_le fun line hline => hls line (hown line hline))
  exact ⟨idx, s.startLine + offset, text, ⟨s, hs, own, hlines, by omega, by omega⟩, hb⟩

lemma wikilinkInside_eq_some {transclude : Bool} {sectionIdx line : ℕ} {inside : List Char} {link : RawWikilink}
    (h : wikilinkInside transclude sectionIdx line inside = some link) :
    link.sectionIdx = sectionIdx ∧ link.line = line := by
  unfold wikilinkInside at h
  dsimp only at h
  split_ifs at h
  obtain rfl := Option.some_inj.mp h
  exact ⟨rfl, rfl⟩

lemma mdLink_eq_some {node : LinkNode} {link : RawWikilink} (h : mdLink sections node = some link) :
    link.line = node.line ∧ link.sectionIdx =
      (sections.findIdx? fun s => s.startLine ≤ node.line ∧ node.line ≤ s.endLine).getD 0 := by
  unfold mdLink at h
  dsimp only at h
  rw [Option.ite_none_left_eq_some] at h
  obtain rfl := Option.some_inj.mp h.2
  exact ⟨rfl, rfl⟩

lemma mem_wikilinksOfLine {sectionIdx line left column : ℕ} {text : List Char} {found : ℕ × RawWikilink}
    (h : found ∈ wikilinksOfLine sectionIdx line left column text) :
    found.2.sectionIdx = sectionIdx ∧ found.2.line = line := by
  induction text generalizing left column with
  | nil => exact absurd h List.not_mem_nil
  | cons c rest ih =>
    cases left with
    | succ left => exact ih h
    | zero =>
      rw [wikilinksOfLine] at h
      split at h
      · exact ih h
      · split at h
        · exact ih h
        · obtain h | h := List.mem_append.mp h
          · obtain ⟨link, hlink, rfl⟩ := List.mem_map.mp h
            exact wikilinkInside_eq_some (Option.mem_toList.mp hlink)
          · exact ih h

/-- **The sections of a body are its parts.**  For every body, and every list of headings that are in order, the
lines of the headings and of the parts make up the body, each line once; there is a section for each part behind
a heading, and one for the part before them unless it is blank, and its text is the lines of the part.  What is
found in the sections names the section that has its line; a link of Markdown does if any section has its
line. -/
theorem extractSections_partition (tables : TagTables) (body : List Char) (headings : List RawHeading)
    (nodes : List LinkNode) (hordered : Ordered headings) :
    let ls := lines body
    let sections := extractSections ls headings
    (∃ preamble rest, sections = preamble.toList ++ rest ∧ Partition ls headings preamble rest) ∧
      (∀ link ∈ extractWikilinks sections, ∀ k, Owner ls sections link.line k ↔ link.sectionIdx = k) ∧
      (∀ tag ∈ extractInlineTags tables sections,
        ∀ k, Owner ls sections tag.line k ↔ tag.sectionIdx = some k) ∧
      ∀ link ∈ extractMdLinks nodes sections, ∀ k, Owner ls sections link.line k → link.sectionIdx = k := by
  intro ls sections
  have hls : ∀ line ∈ ls, '\n' ∉ line := fun line hline => notMem_of_mem_lines hline
  refine ⟨⟨preamble ls headings, headingSections ls 0 headings, rfl, partition_sections hordered⟩, ?_, ?_, ?_⟩
  · intro link hlink k
    obtain ⟨idx, line, text, howner, hfound⟩ := owner_of_mem_scanSections hls hlink
    obtain ⟨found, hmem, rfl⟩ := List.mem_map.mp hfound
    obtain ⟨hidx, hline⟩ := mem_wikilinksOfLine hmem
    rw [hidx, hline]
    exact ⟨fun h => howner.unique hordered h, fun h => h ▸ howner⟩
  · intro tag htag k
    obtain ⟨idx, line, text, howner, hfound⟩ := owner_of_mem_scanSections hls htag
    obtain ⟨found, -, rfl⟩ := List.mem_map.mp hfound
    rw [Option.some_inj]
    exact ⟨fun h => howner.unique hordered h, fun h => h ▸ howner⟩
  · intro link hlink k howner
    obtain ⟨node, -, hnode⟩ := List.mem_filterMap.mp hlink
    obtain ⟨hline, hidx⟩ := mdLink_eq_some hnode
    rw [hline] at howner
    obtain ⟨s, hs, howns⟩ := howner
    have hspan := howns.le_endLine
    rw [hidx]
    cases hfind : sections.findIdx? fun s => s.startLine ≤ node.line ∧ node.line ≤ s.endLine with
    | none =>
      have hnot := List.findIdx?_eq_none_iff.mp hfind s (List.mem_of_getElem? hs)
      simp [hspan] at hnot
    | some idx =>
      obtain ⟨hidx, hfound, -⟩ := List.findIdx?_eq_some_iff_getElem.mp hfind
      have hspan' : sections[idx].startLine ≤ node.line ∧ node.line ≤ sections[idx].endLine := by
        simpa using hfound
      exact eq_of_span hordered (List.getElem?_eq_getElem hidx) hs hspan' hspan

/-- A body with a preamble, two headings and a link. -/
def sampleBody : List Char := "a\n# H\n[[x]]\n# K\n".toList

def sampleHeadings : List RawHeading := [⟨1, ['H'], 2, 2⟩, ⟨1, ['K'], 4, 4⟩]

theorem sampleBody_partition : ∃ preamble rest,
    extractSections (lines sampleBody) sampleHeadings = preamble.toList ++ rest ∧
      Partition (lines sampleBody) sampleHeadings preamble rest :=
  (extractSections_partition ⟨⟨Char.isAlphanum, fun c => [c]⟩, Char.isAlpha, id⟩ sampleBody sampleHeadings []
    ⟨by decide, by decide⟩).1

end Markdown
end NestWeaver
