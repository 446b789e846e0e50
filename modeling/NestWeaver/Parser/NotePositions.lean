import NestWeaver.Framework.Json
import NestWeaver.Parser.NoteText
import NestWeaver.Parser.SectionItems

/-!
# Positions in a note

`parse_markdown` and `extract_block_refs` of `crates/nestweaver-parser/src/markdown.rs`: what a note has is found
in its body, and the lines of the body become those of the file by the number of lines in front of it.

That number is of the lines that are read, so a line feed of a comment is not counted; and the lines of block
references are left as they are.  So the line that is reported is the one on which the text begins exactly if
no line feed of a comment stands before the text, and for a block reference the note has no frontmatter as well
(`parseMarkdown_positions_iff`).

The Markdown parser and the YAML parser are parameters.
-/

set_option linter.all false

namespace NestWeaver
namespace Markdown

open ByteOffsets Lines

/-! ## The code -/

/-- A heading with the place of the body that it begins at. -/
structure PlacedHeading extends HeadingNode where
  position : ℕ
  deriving DecidableEq, Repr

structure PlacedLink extends LinkNode where
  position : ℕ
  deriving DecidableEq, Repr

/-- What the Markdown parser makes of a body. -/
structure SyntaxTree where
  headings : List PlacedHeading
  links : List PlacedLink
  deriving DecidableEq, Repr

/-- What a note is parsed with. -/
structure Parsers where
  tables : TagTables
  markdown : List Char → SyntaxTree
  yaml : List Char → Json

structure ParsedNote where
  headings : List SluggedHeading
  sections : List RawSection
  wikilinks : List RawWikilink
  tags : List RawTag
  blockRefs : List (ℕ × List Char)
  deriving DecidableEq, Repr

mutual

/-- The wikilinks of the strings of a value. -/
def wikilinksOfValue (sectionIdx : ℕ) : Json → List RawWikilink
  | .str text => (lines text.toList).flatMap fun line => (wikilinksOfLine sectionIdx 0 0 0 line).map Prod.snd
  | .arr items => wikilinksOfItems sectionIdx items
  | .obj fields => wikilinksOfFields sectionIdx fields
  | _ => []

def wikilinksOfItems (sectionIdx : ℕ) : List Json → List RawWikilink
  | [] => []
  | v :: items => wikilinksOfValue sectionIdx v ++ wikilinksOfItems sectionIdx items

def wikilinksOfFields (sectionIdx : ℕ) : List (String × Json) → List RawWikilink
  | [] => []
  | (_, v) :: fields => wikilinksOfValue sectionIdx v ++ wikilinksOfFields sectionIdx fields

end

def extractFrontmatterWikilinks (frontmatter : Json) (sectionIdx : ℕ) : List RawWikilink :=
  wikilinksOfValue sectionIdx frontmatter

section Code

variable (tables : TagTables)

def frontmatterTag (raw : List Char) : Option RawTag :=
  let name := tables.lowercase ((Strings.trim raw).dropWhile (· = '#'))
  if name ≠ [] ∧ name.any tables.isAlphabetic = true then some ⟨name, .frontmatter, none, 0⟩ else none

def extractFrontmatterTags (frontmatter : Json) : List RawTag :=
  match frontmatter.get "tags" with
  | some (.arr items) => (items.filterMap Json.asStr).filterMap fun s => frontmatterTag tables s.toList
  | some (.str s) =>
    ((s.toList.splitOnP [',', ' ', '\t'].contains).filter fun part => Strings.trim part ≠ []).filterMap
      (frontmatterTag tables)
  | _ => []

/-- The block reference of a line, with the column of its caret. -/
def blockRefOfLine (line : List Char) : Option (ℕ × List Char) :=
  let trimmed := trimEnd line
  let found := match Strings.splitOnce ['^', ' '] trimmed.reverse with
    | some (blockId, front) => some (front.length + 1, blockId.reverse)
    | none => (Strings.stripPrefix ['^'] (trimmed.dropWhile isWhiteSpace)).map fun (blockId : List Char) =>
      (trimmed.length - blockId.length - 1, blockId)
  found.filter fun ref => ref.2 ≠ [] && ref.2.all fun c => tables.isAlphanumeric c || c = '-'

def extractBlockRefs (text : List Char) : List (ℕ × List Char) :=
  (lines text).zipIdx.filterMap fun (line, lineNum) =>
    (blockRefOfLine tables line).map fun ref => (lineNum + 1, ref.2)

end Code

section Shifts

variable (shift : ℕ)

def shiftHeading (h : SluggedHeading) : SluggedHeading :=
  { h with startLine := h.startLine + shift, endLine := h.endLine + shift }

def shiftSection (s : RawSection) : RawSection :=
  { s with startLine := s.startLine + shift, endLine := s.endLine + shift }

def shiftWikilink (link : RawWikilink) : RawWikilink :=
  if 0 < link.line then { link with line := link.line + shift } else link

def shiftTag (tag : RawTag) : RawTag :=
  if 0 < tag.line then { tag with line := tag.line + shift } else tag

end Shifts

/-- What is found in a body, on lines of the body. -/
def parseBody (parsers : Parsers) (frontmatter : Json) (body : List Char) : ParsedNote :=
  let tree := parsers.markdown body
  let headings := extractHeadings parsers.tables.toCharTables (tree.headings.map PlacedHeading.toHeadingNode)
  let sections := extractSections (lines body) (headings.map SluggedHeading.toRawHeading)
  { headings
    sections
    wikilinks := extractWikilinks sections ++ extractMdLinks (tree.links.map PlacedLink.toLinkNode) sections ++
      if sections = [] then [] else extractFrontmatterWikilinks frontmatter 0
    tags := extractInlineTags parsers.tables sections ++ extractFrontmatterTags parsers.tables frontmatter
    blockRefs := extractBlockRefs parsers.tables body }

/-- The note, unless the frontmatter is cut inside a character. -/
def parseMarkdown (parsers : Parsers) (source : List Char) : Option ParsedNote :=
  let source := strippedSource source
  (splitFrontmatter source).map fun (frontmatterRaw, body) =>
    let note := parseBody parsers ((frontmatterRaw.map parsers.yaml).getD (.obj [])) body
    let shift := (lines source).length - (lines body).length
    { headings := note.headings.map (shiftHeading shift)
      sections := note.sections.map (shiftSection shift)
      wikilinks := note.wikilinks.map (shiftWikilink shift)
      tags := note.tags.map (shiftTag shift)
      blockRefs := note.blockRefs }

/-! ## Where texts begin -/

/-- The places of a body at which the texts begin that are found in it. -/
structure Places where
  headings : List ℕ
  sections : List ℕ
  sectionEnds : List ℕ
  wikilinks : List ℕ
  tags : List ℕ
  blockRefs : List ℕ
  deriving DecidableEq, Repr

def placesOfBody (parsers : Parsers) (body : List Char) : Places :=
  let tree := parsers.markdown body
  let sections := (parseBody parsers .null body).sections
  { headings := (tree.headings.filter fun node => Strings.trim node.text ≠ []).map PlacedHeading.position
    sections := sections.map fun s => lineStart body s.startLine
    sectionEnds := sections.map fun s => lineStart body s.endLine
    wikilinks :=
      scanSections (fun secIdx line lineText =>
        (wikilinksOfLine secIdx line 0 0 lineText).map fun link => lineStart body line + link.1) sections ++
      (tree.links.filter fun node => (mdLink sections node.toLinkNode).isSome).map PlacedLink.position
    tags := scanSections (fun _ line lineText =>
      (tagsOfLine parsers.tables 0 0 none none lineText).map fun tag => lineStart body line + tag.1) sections
    blockRefs := (lines body).zipIdx.filterMap fun (line, lineNum) =>
      (blockRefOfLine parsers.tables line).map fun ref => lineStart body (lineNum + 1) + ref.1 }

/-- The nodes of a syntax tree are in the text, and on the lines that they are said to be on. -/
structure SyntaxTree.Placed (tree : SyntaxTree) (text : List Char) : Prop where
  headings : ∀ node ∈ tree.headings, node.position < text.length ∧ node.startLine = lineAt text node.position + 1
  links : ∀ node ∈ tree.links, node.position < text.length ∧ node.line = lineAt text node.position + 1

/-- The place of the file that a place of the body is. -/
def placeInFile (source body : List Char) (position : ℕ) : Option ℕ :=
  origin source ((strippedSource source).length - body.length + position)

/-- The text at a place of the body begins on this line of the file. -/
def BeginsOn (source body : List Char) (position line : ℕ) : Prop :=
  ∃ q, placeInFile source body position = some q ∧ line = lineAt source q + 1

/-- A line feed of a comment stands before a place of the body. -/
def BehindCommentFeed (source body : List Char) (position : ℕ) : Prop :=
  ∃ q, placeInFile source body position = some q ∧ CommentFeedBefore source q

/-! ## Lines of the body -/

variable {source body front text : List Char} {frontmatter : Option (List Char)} {position line : ℕ}
variable {ls : List (List Char)} {s : RawSection} {own : List (List Char)} {c : Char} {k column : ℕ}

lemma dropLineEnd_suffix (body : List Char) : dropLineEnd body <:+ body := by
  rw [dropLineEnd]
  cases hend : (Strings.stripPrefix ['\n'] body).or (Strings.stripPrefix ['\r', '\n'] body) with
  | none => exact List.suffix_refl _
  | some rest =>
    obtain h | ⟨-, h⟩ := Option.or_eq_some_iff.mp hend
    · exact ⟨_, Strings.append_of_stripPrefix h⟩
    · exact ⟨_, Strings.append_of_stripPrefix h⟩

/-- What stands in front of the body.  There is a line end in it if there is frontmatter, and otherwise it is
empty. -/
lemma splitFrontmatter_eq_some (h : splitFrontmatter source = some (frontmatter, body)) :
    ∃ front, source = front ++ body ∧ (frontmatter = none ↔ front.count '\n' = 0) := by
  rw [splitFrontmatter] at h
  split at h
  · obtain ⟨rfl, rfl⟩ := Prod.mk.inj (Option.some.inj h)
    exact ⟨[], rfl, by simp⟩
  · next rest hrest =>
    split at h
    · obtain ⟨rfl, rfl⟩ := Prod.mk.inj (Option.some.inj h)
      exact ⟨[], rfl, by simp⟩
    · split at h
      · next hsplit =>
        obtain ⟨rfl, rfl⟩ := Prod.mk.inj (Option.some.inj h)
        obtain ⟨mark, opening, -, hopening, rfl⟩ := afterOpening_eq_some.mp hrest
        obtain ⟨hrest, -⟩ := splitAtByte_eq_some hsplit
        obtain ⟨ending, hending⟩ := (dropLineEnd_suffix _).trans ⟨_, hrest.symm⟩
        refine ⟨mark ++ opening ++ ending, ?_, ?_⟩
        · rw [List.append_assoc (mark ++ opening), hending]
        · have hfeed : '\n' ∈ opening := by
            obtain rfl | rfl := hopening <;> simp
          have hpos : 0 < opening.count '\n' := List.count_pos_iff.mpr hfeed
          simp only [List.count_append, reduceCtorEq, false_iff]
          omega
      · cases h

/-- A text in front of another has as many lines as line feeds. -/
lemma length_lines_append (front : List Char) (hbody : body ≠ []) :
    (lines (front ++ body)).length = front.count '\n' + (lines body).length := by
  rw [lines_eq_map_rawLines, lines_eq_map_rawLines, List.length_map, List.length_map]
  induction front with
  | nil => rw [List.nil_append, List.count_nil, Nat.zero_add]
  | cons c front ih =>
    rw [List.cons_append, rawLines]
    by_cases hc : c = '\n'
    · rw [if_pos hc, List.length_cons, ih, hc, List.count_cons_self]
      omega
    · rw [if_neg hc, List.count_cons_of_ne hc, ← ih]
      cases hraw : rawLines (front ++ body) with
      | nil =>
        have hflat := flatten_rawLines (front ++ body)
        rw [hraw] at hflat
        exact absurd (List.append_eq_nil_iff.mp hflat.symm).2 hbody
      | cons first rest => rfl

lemma exists_placeInFile (hsource : strippedSource source = front ++ body) (hposition : position < body.length) :
    ∃ q, placeInFile source body position = some q ∧ lineAt source q =
      front.count '\n' + lineAt body position + ((markComments false source).take q).count ('\n', true) := by
  have hlength : (strippedSource source).length - body.length = front.length := by
    rw [hsource, List.length_append]
    omega
  rw [placeInFile, hlength]
  have hlt : front.length + position < (strippedSource source).length := by
    rw [hsource, List.length_append]
    omega
  obtain ⟨q, hq⟩ := exists_origin_of_lt hlt
  refine ⟨q, hq, ?_⟩
  rw [lineAt_origin hq, hsource, lineAt_append]

lemma behindCommentFeed_iff {q : ℕ} (hq : placeInFile source body position = some q) :
    BehindCommentFeed source body position ↔ 0 < ((markComments false source).take q).count ('\n', true) := by
  rw [List.count_pos_iff]
  constructor
  · rintro ⟨q', hq', hfeed⟩
    obtain rfl := Option.some.inj (hq.symm.trans hq')
    exact hfeed
  · intro hfeed
    exact ⟨q, hq, hfeed⟩

lemma beginsOn_iff {q : ℕ} (hq : placeInFile source body position = some q) :
    BeginsOn source body position line ↔ line = lineAt source q + 1 := by
  constructor
  · rintro ⟨q', hq', hline⟩
    obtain rfl := Option.some.inj (hq.symm.trans hq')
    exact hline
  · intro hline
    exact ⟨q, hq, hline⟩

/-- A text of the body begins so many lines further on as there are in front of the body, exactly if no line
feed of a comment stands before it. -/
lemma beginsOn_shifted_iff (hsource : strippedSource source = front ++ body)
    (hposition : position < body.length) :
    BeginsOn source body position (lineAt body position + 1 + front.count '\n') ↔
      ¬BehindCommentFeed source body position := by
  obtain ⟨q, hq, hline⟩ := exists_placeInFile hsource hposition
  rw [beginsOn_iff hq, behindCommentFeed_iff hq, hline]
  omega

/-- A text of the body begins on its line of the body, exactly if the body begins the file as well. -/
lemma beginsOn_unshifted_iff (hsource : strippedSource source = front ++ body)
    (hposition : position < body.length) :
    BeginsOn source body position (lineAt body position + 1) ↔
      ¬BehindCommentFeed source body position ∧ front.count '\n' = 0 := by
  obtain ⟨q, hq, hline⟩ := exists_placeInFile hsource hposition
  rw [beginsOn_iff hq, behindCommentFeed_iff hq, hline]
  omega

/-! ## Lines of sections -/

/-- A text of a body begins on this line of it. -/
def OnLine (body : List Char) (line position : ℕ) : Prop :=
  position < body.length ∧ line = lineAt body position + 1

/-- A character of a line of the body is on that line. -/
lemma onLine_of_getElem? {n : ℕ} {lineText : List Char} (hline : (lines body)[n]? = some lineText)
    (hc : lineText[column]? = some c) :
    OnLine body (n + 1) (lineStart body (n + 1) + column) ∧ body[lineStart body (n + 1) + column]? = some c := by
  rw [lines_eq_map_rawLines, List.getElem?_map, Option.map_eq_some_iff] at hline
  obtain ⟨raw, hraw, rfl⟩ := hline
  obtain ⟨tail, htail⟩ := lineContent_prefix raw
  have hchar : raw[column]? = some c := by
    rw [← htail, List.getElem?_append_left (List.getElem?_eq_some_iff.mp hc).1, hc]
  obtain ⟨hat, hget⟩ := lineAt_lineStart_add hraw (List.getElem?_eq_some_iff.mp hchar).1
  rw [hchar] at hget
  exact ⟨⟨(List.getElem?_eq_some_iff.mp hget).1, by rw [hat]⟩, hget⟩

lemma getElem?_blankSpans (h : (blankSpans k text)[column]? = some c) (hc : c ≠ ' ') :
    text[column]? = some c := by
  induction text generalizing k column with
  | nil =>
    cases k <;> simp [blankSpans] at h
  | cons first rest ih =>
    cases k with
    | zero =>
      rw [blankSpans] at h
      cases column with
      | zero =>
        split_ifs at h
        · exact absurd (Option.some.inj h).symm hc
        · exact h
        · exact h
      | succ column =>
        split_ifs at h
        · exact ih h
        · exact ih h
        · exact ih h
    | succ k =>
      cases column with
      | zero => exact absurd (Option.some.inj h).symm hc
      | succ column => exact ih h

lemma getElem?_stripCodeLines {inFence : Bool} {stripped : List Char}
    (h : (stripCodeLines inFence ls)[k]? = some stripped) (hc : stripped[column]? = some c) (hblank : c ≠ ' ') :
    ∃ lineText, ls[k]? = some lineText ∧ lineText[column]? = some c := by
  induction ls generalizing inFence k with
  | nil => simp [stripCodeLines] at h
  | cons first ls ih =>
    rw [stripCodeLines] at h
    cases k with
    | zero =>
      refine ⟨first, rfl, ?_⟩
      split_ifs at h
      · obtain rfl := Option.some.inj h
        simp at hc
      · obtain rfl := Option.some.inj h
        simp at hc
      · obtain rfl := Option.some.inj h
        exact getElem?_blankSpans hc hblank
    | succ k =>
      split_ifs at h
      · exact ih h
      · exact ih h
      · exact ih h

/-- The lines that are put together are cut again, but for what their ends take. -/
lemma prefix_of_lines_joinLines (h : ∀ line ∈ own, '\n' ∉ line) {lineText : List Char}
    (hk : (lines (joinLines own))[k]? = some lineText) : ∃ full, own[k]? = some full ∧ lineText <+: full := by
  obtain rfl | ⟨init, last, rfl⟩ := List.eq_nil_or_concat' own
  · cases hk
  · rw [lines, splitOn_joinLines (by simp) h, List.dropLast_concat, List.getLast?_concat] at hk
    by_cases hinit : k < init.length
    · rw [List.getElem?_append_left (by rwa [List.length_map]), List.getElem?_map,
        Option.map_eq_some_iff] at hk
      obtain ⟨full, hfull, rfl⟩ := hk
      exact ⟨full, by rw [List.getElem?_append_left hinit, hfull], stripReturn_prefix full⟩
    · rw [List.getElem?_append_right (by rw [List.length_map]; omega), List.length_map] at hk
      rw [List.getElem?_append_right (by omega)]
      split_ifs at hk
      · cases hk
      · exact ⟨lineText, hk, List.prefix_refl _⟩

/-- **Lines that are scanned.**  What is found in a line of a section, at a character that is not blanked out, is
on the line of the body that it is said to be on. -/
lemma onLine_of_mem_sections {headings : List RawHeading} {offset : ℕ} {lineText : List Char}
    (hs : (extractSections (lines body) headings)[k]? = some s)
    (hline : (lines (stripCode s.text))[offset]? = some lineText) (hc : lineText[column]? = some c)
    (hblank : c ≠ ' ') :
    OnLine body (s.startLine + offset) (lineStart body (s.startLine + offset) + column) ∧
      body[lineStart body (s.startLine + offset) + column]? = some c := by
  obtain ⟨own, hlines, hown⟩ := hasLines_extractSections hs
  rw [lines_stripCode, List.getElem?_map, Option.map_eq_some_iff] at hline
  obtain ⟨stripped, hstripped, rfl⟩ := hline
  have hchar : stripped[column]? = some c := by
    obtain ⟨tail, htail⟩ := stripReturn_prefix stripped
    rw [← htail, List.getElem?_append_left (List.getElem?_eq_some_iff.mp hc).1, hc]
  obtain ⟨sectionLine, hsectionLine, hchar⟩ := getElem?_stripCodeLines hstripped hchar hblank
  rw [hlines.text] at hsectionLine
  obtain ⟨full, hfull, hprefix⟩ :=
    prefix_of_lines_joinLines (fun line hline => notMem_of_mem_lines (hown line hline)) hsectionLine
  have hchar : full[column]? = some c := by
    obtain ⟨tail, htail⟩ := hprefix
    rw [← htail, List.getElem?_append_left (List.getElem?_eq_some_iff.mp hchar).1, hchar]
  have hspan := hlines.span (List.ne_nil_of_mem (List.mem_of_getElem? hfull))
  have hstart := hlines.start
  have hbody : (lines body)[s.startLine - 1 + offset]? = some full := by
    rw [hspan, List.getElem?_drop, List.getElem?_take] at hfull
    split_ifs at hfull
    exact hfull
  have hfound := onLine_of_getElem? hbody hchar
  have hnumber : s.startLine - 1 + offset + 1 = s.startLine + offset := by omega
  rwa [hnumber] at hfound

/-! ## Columns -/

/-- A tag begins at a number sign. -/
lemma getElem?_of_mem_tagsOfLine {tables : TagTables} {left start : ℕ} {prev2 prev : Option Char}
    {tag : ℕ × List Char} (h : tag ∈ tagsOfLine tables left start prev2 prev text) :
    ∃ column, tag.1 = start + column ∧ text[column]? = some '#' := by
  induction text generalizing left start prev2 prev with
  | nil => exact absurd h List.not_mem_nil
  | cons c rest ih =>
    have hstep : ∀ {left prev2 prev}, tag ∈ tagsOfLine tables left (start + 1) prev2 prev rest →
        ∃ column, tag.1 = start + column ∧ (c :: rest)[column]? = some '#' := by
      intro left prev2 prev htag
      obtain ⟨column, hcolumn, hchar⟩ := ih htag
      exact ⟨column + 1, by omega, hchar⟩
    cases left with
    | succ left => exact hstep h
    | zero =>
      rw [tagsOfLine] at h
      split_ifs at h with hcond
      · obtain h | h := List.mem_append.mp h
        · obtain ⟨name, -, rfl⟩ := List.mem_map.mp h
          exact ⟨0, rfl, by rw [hcond.1]; rfl⟩
        · exact hstep h
      · exact hstep h

/-- A wikilink begins at a bracket, or at an exclamation mark. -/
lemma getElem?_of_mem_wikilinksOfLine {sectionIdx lineNumber left start : ℕ} {link : ℕ × RawWikilink}
    (h : link ∈ wikilinksOfLine sectionIdx lineNumber left start text) :
    ∃ column c, link.1 = start + column ∧ text[column]? = some c ∧ (c = '[' ∨ c = '!') := by
  induction text generalizing left start with
  | nil => exact absurd h List.not_mem_nil
  | cons c rest ih =>
    have hstep : ∀ {left}, link ∈ wikilinksOfLine sectionIdx lineNumber left (start + 1) rest →
        ∃ column c', link.1 = start + column ∧ (c :: rest)[column]? = some c' ∧ (c' = '[' ∨ c' = '!') := by
      intro left hlink
      obtain ⟨column, c', hcolumn, hchar, hc'⟩ := ih hlink
      exact ⟨column + 1, c', by omega, hchar, hc'⟩
    cases left with
    | succ left => exact hstep h
    | zero =>
      rw [wikilinksOfLine] at h
      split at h
      · exact hstep h
      · next transclude width hopening =>
        split at h
        · exact hstep h
        · obtain h | h := List.mem_append.mp h
          · obtain ⟨found, -, rfl⟩ := List.mem_map.mp h
            refine ⟨0, c, rfl, rfl, ?_⟩
            rw [wikilinkOpening] at hopening
            split_ifs at hopening with htransclude hopens
            · exact .inr (List.cons_prefix_cons.mp htransclude).1.symm
            · exact .inl (List.cons_prefix_cons.mp hopens).1.symm
          · exact hstep h

/-- A block reference begins at a caret. -/
lemma getElem?_of_blockRefOfLine {tables : TagTables} {ref : ℕ × List Char}
    (h : blockRefOfLine tables text = some ref) : text[ref.1]? = some '^' := by
  obtain ⟨tail, htail, -⟩ := Strings.exists_rdropWhile isWhiteSpace text
  have htext : text = trimEnd text ++ tail := htail
  suffices hchar : (trimEnd text)[ref.1]? = some '^' by
    rw [htext, List.getElem?_append_left (List.getElem?_eq_some_iff.mp hchar).1, hchar]
  unfold blockRefOfLine at h
  dsimp only at h
  obtain ⟨h, -⟩ := Option.filter_eq_some_iff.mp h
  split at h
  · next blockId front hsplit =>
    obtain rfl := Option.some.inj h
    have hreverse := congrArg List.reverse (Strings.splitOnce_eq_some hsplit)
    have hparts : trimEnd text = (front.reverse ++ [' ']) ++ '^' :: blockId.reverse := by simpa using hreverse
    rw [hparts, List.getElem?_append_right (by simp)]
    simp
  · obtain ⟨blockId, hprefix, rfl⟩ := Option.map_eq_some_iff.mp h
    obtain ⟨blank, hparts⟩ : ∃ blank, trimEnd text = blank ++ '^' :: blockId := by
      refine ⟨(trimEnd text).takeWhile isWhiteSpace, ?_⟩
      conv_lhs => rw [← List.takeWhile_append_dropWhile (p := isWhiteSpace) (l := trimEnd text)]
      rw [← Strings.append_of_stripPrefix hprefix]
      rfl
    have hcolumn : (trimEnd text).length - blockId.length - 1 = blank.length := by
      rw [hparts, List.length_append, List.length_cons]
      omega
    dsimp only
    rw [hcolumn, hparts, List.getElem?_append_right (Nat.le_refl _), Nat.sub_self]
    rfl

/-! ## The lines that are found -/

/-- The lines are those of the body on which the texts at these places begin. -/
abbrev OnLines (body : List Char) : List ℕ → List ℕ → Prop := List.Forall₂ (OnLine body)

lemma onLines_map {β : Type*} {found : List β} {line position : β → ℕ}
    (h : ∀ b ∈ found, OnLine body (line b) (position b)) : OnLines body (found.map line) (found.map position) := by
  rw [OnLines, List.forall₂_map_left_iff, List.forall₂_map_right_iff, List.forall₂_same]
  exact h

lemma map_scanSections {β γ : Type*} (scan : ℕ → ℕ → List Char → List β) (f : β → γ)
    (sections : List RawSection) :
    (scanSections scan sections).map f = scanSections (fun idx line text => (scan idx line text).map f) sections := by
  simp only [scanSections, List.map_flatMap]

lemma onLines_tags (tables : TagTables) (body : List Char) (headings : List RawHeading) :
    OnLines body ((extractInlineTags tables (extractSections (lines body) headings)).map RawTag.line)
      (scanSections (fun _ line lineText =>
        (tagsOfLine tables 0 0 none none lineText).map fun tag => lineStart body line + tag.1)
        (extractSections (lines body) headings)) := by
  set sections := extractSections (lines body) headings
  set found := scanSections (fun _ line lineText =>
    (tagsOfLine tables 0 0 none none lineText).map fun tag => (line, tag.1)) sections
  have hlines : (extractInlineTags tables sections).map RawTag.line = found.map Prod.fst := by
    simp only [extractInlineTags, map_scanSections, List.map_map, found]
    rfl
  have hplaces : scanSections (fun _ line lineText =>
      (tagsOfLine tables 0 0 none none lineText).map fun tag => lineStart body line + tag.1) sections =
      found.map fun e => lineStart body e.1 + e.2 := by
    simp only [map_scanSections, List.map_map, found]
    rfl
  rw [hlines, hplaces]
  refine onLines_map fun e he => ?_
  obtain ⟨idx, s, offset, lineText, hs, hline, he⟩ := mem_scanSections.mp he
  obtain ⟨tag, htag, rfl⟩ := List.mem_map.mp he
  obtain ⟨column, hcolumn, hchar⟩ := getElem?_of_mem_tagsOfLine htag
  rw [hcolumn, Nat.zero_add]
  exact (onLine_of_mem_sections hs hline hchar (by decide)).1

lemma onLines_wikilinks (body : List Char) (headings : List RawHeading) :
    OnLines body ((extractWikilinks (extractSections (lines body) headings)).map RawWikilink.line)
      (scanSections (fun secIdx line lineText =>
        (wikilinksOfLine secIdx line 0 0 lineText).map fun link => lineStart body line + link.1)
        (extractSections (lines body) headings)) := by
  set sections := extractSections (lines body) headings
  set found := scanSections (fun secIdx line lineText =>
    (wikilinksOfLine secIdx line 0 0 lineText).map fun link => (line, link)) sections
  have hmem : ∀ e ∈ found, ∃ column, e.2.1 = column ∧ e.2.2.line = e.1 ∧
      OnLine body e.1 (lineStart body e.1 + column) := by
    intro e he
    obtain ⟨idx, s, offset, lineText, hs, hline, he⟩ := mem_scanSections.mp he
    obtain ⟨link, hlink, rfl⟩ := List.mem_map.mp he
    obtain ⟨column, c, hcolumn, hchar, hc⟩ := getElem?_of_mem_wikilinksOfLine hlink
    refine ⟨column, by rw [hcolumn, Nat.zero_add], (mem_wikilinksOfLine hlink).2, ?_⟩
    refine (onLine_of_mem_sections hs hline hchar ?_).1
    obtain rfl | rfl := hc <;> decide
  have hlines : (extractWikilinks sections).map RawWikilink.line = found.map Prod.fst := by
    have hlinks : (extractWikilinks sections).map RawWikilink.line = found.map fun e => e.2.2.line := by
      simp only [extractWikilinks, map_scanSections, List.map_map, found]
      rfl
    rw [hlinks]
    refine List.map_congr_left fun e he => ?_
    obtain ⟨-, -, hline, -⟩ := hmem e he
    exact hline
  have hplaces : scanSections (fun secIdx line lineText =>
      (wikilinksOfLine secIdx line 0 0 lineText).map fun link => lineStart body line + link.1) sections =
      found.map fun e => lineStart body e.1 + e.2.1 := by
    simp only [map_scanSections, List.map_map, found]
    rfl
  rw [hlines, hplaces]
  refine onLines_map fun e he => ?_
  obtain ⟨column, hcolumn, -, hon⟩ := hmem e he
  rwa [hcolumn]

lemma onLines_blockRefs (tables : TagTables) (body : List Char) :
    OnLines body ((extractBlockRefs tables body).map Prod.fst)
      ((lines body).zipIdx.filterMap fun (line, lineNum) =>
        (blockRefOfLine tables line).map fun ref => lineStart body (lineNum + 1) + ref.1) := by
  set found := (lines body).zipIdx.filterMap fun (line, lineNum) =>
    (blockRefOfLine tables line).map fun ref => (lineNum, ref)
  have hlines : (extractBlockRefs tables body).map Prod.fst = found.map fun e => e.1 + 1 := by
    simp only [extractBlockRefs, List.map_filterMap, Option.map_map, found]
    rfl
  have hplaces : ((lines body).zipIdx.filterMap fun (line, lineNum) =>
      (blockRefOfLine tables line).map fun ref => lineStart body (lineNum + 1) + ref.1) =
      found.map fun e => lineStart body (e.1 + 1) + e.2.1 := by
    simp only [List.map_filterMap, Option.map_map, found]
    rfl
  rw [hlines, hplaces]
  refine onLines_map fun e he => ?_
  obtain ⟨⟨line, lineNum⟩, hmem, he⟩ := List.mem_filterMap.mp he
  obtain ⟨ref, href, rfl⟩ := Option.map_eq_some_iff.mp he
  exact (onLine_of_getElem? (List.mem_zipIdx_iff_getElem?.mp hmem) (getElem?_of_blockRefOfLine href)).1

/-- The headings are the nodes with a text. -/
lemma map_startLine_extractHeadings (tables : CharTables) (nodes : List HeadingNode) :
    (extractHeadings tables nodes).map (fun h => h.startLine) =
      (nodes.filter fun node => Strings.trim node.text ≠ []).map HeadingNode.startLine := by
  have hfold : ∀ st : (List Char → Option ℕ) × List SluggedHeading,
      ((nodes.foldl (headingStep tables) st).2.map fun h => h.startLine) =
        (st.2.map fun h => h.startLine) ++
          (nodes.filter fun node => Strings.trim node.text ≠ []).map HeadingNode.startLine := by
    induction nodes with
    | nil => intro st; simp
    | cons node nodes ih =>
      intro st
      rw [List.foldl_cons, ih]
      unfold headingStep
      dsimp only
      by_cases htext : Strings.trim node.text = []
      · rw [if_pos htext, List.filter_cons_of_neg (by simpa using htext)]
      · rw [if_neg htext, List.filter_cons_of_pos (by simpa using htext)]
        cases st.1 (slugify tables (Strings.trim node.text)) <;> simp
  simpa [extractHeadings] using hfold (fun _ => none, [])

lemma map_line_extractMdLinks (nodes : List PlacedLink) (sections : List RawSection) :
    (extractMdLinks (nodes.map PlacedLink.toLinkNode) sections).map RawWikilink.line =
      (nodes.filter fun node => (mdLink sections node.toLinkNode).isSome).map fun node => node.line := by
  induction nodes with
  | nil => rfl
  | cons node nodes ih =>
    rw [extractMdLinks] at ih ⊢
    rw [List.map_cons, List.filterMap_cons]
    cases hlink : mdLink sections node.toLinkNode with
    | none =>
      rw [List.filter_cons_of_neg (by simp [hlink])]
      exact ih
    | some link =>
      rw [List.filter_cons_of_pos (by simp [hlink]), List.map_cons, List.map_cons, ih, (mdLink_eq_some hlink).1]

lemma onLine_lineStart {n : ℕ} (hn : 1 ≤ n) (h : lineStart body n < body.length) :
    OnLine body n (lineStart body n) := by
  have hlt : n - 1 < (rawLines body).length := by
    by_contra hle
    rw [lineStart, List.take_of_length_le (by omega), flatten_rawLines] at h
    exact lt_irrefl _ h
  have hraw := List.getElem?_eq_getElem hlt
  have hpos := List.length_pos_of_ne_nil (ne_nil_of_mem_rawLines (List.getElem_mem hlt))
  obtain ⟨hat, -⟩ := lineAt_lineStart_add hraw hpos
  have hnumber : n - 1 + 1 = n := by omega
  rw [hnumber, Nat.add_zero] at hat
  exact ⟨h, by omega⟩

mutual

/-- A wikilink of the frontmatter is on no line. -/
lemma line_of_mem_wikilinksOfValue {sectionIdx : ℕ} {link : RawWikilink} :
    ∀ v : Json, link ∈ wikilinksOfValue sectionIdx v → link.line = 0
  | .str text => by
    intro h
    rw [wikilinksOfValue, List.mem_flatMap] at h
    obtain ⟨line, -, h⟩ := h
    obtain ⟨found, hfound, rfl⟩ := List.mem_map.mp h
    exact (mem_wikilinksOfLine hfound).2
  | .arr items => by
    intro h
    rw [wikilinksOfValue] at h
    exact line_of_mem_wikilinksOfItems items h
  | .obj fields => by
    intro h
    rw [wikilinksOfValue] at h
    exact line_of_mem_wikilinksOfFields fields h
  | .null => fun h => absurd h List.not_mem_nil
  | .bool _ => fun h => absurd h List.not_mem_nil
  | .num _ => fun h => absurd h List.not_mem_nil

lemma line_of_mem_wikilinksOfItems {sectionIdx : ℕ} {link : RawWikilink} :
    ∀ items : List Json, link ∈ wikilinksOfItems sectionIdx items → link.line = 0
  | [] => fun h => absurd h List.not_mem_nil
  | v :: items => by
    intro h
    rw [wikilinksOfItems, List.mem_append] at h
    obtain h | h := h
    · exact line_of_mem_wikilinksOfValue v h
    · exact line_of_mem_wikilinksOfItems items h

lemma line_of_mem_wikilinksOfFields {sectionIdx : ℕ} {link : RawWikilink} :
    ∀ fields : List (String × Json), link ∈ wikilinksOfFields sectionIdx fields → link.line = 0
  | [] => fun h => absurd h List.not_mem_nil
  | (_, v) :: fields => by
    intro h
    rw [wikilinksOfFields, List.mem_append] at h
    obtain h | h := h
    · exact line_of_mem_wikilinksOfValue v h
    · exact line_of_mem_wikilinksOfFields fields h

end

lemma line_of_mem_extractFrontmatterTags {tables : TagTables} {frontmatter : Json} {tag : RawTag}
    (h : tag ∈ extractFrontmatterTags tables frontmatter) : tag.line = 0 := by
  have hone : ∀ raw, frontmatterTag tables raw = some tag → tag.line = 0 := by
    intro raw hraw
    unfold frontmatterTag at hraw
    dsimp only at hraw
    split_ifs at hraw
    obtain rfl := Option.some.inj hraw
    rfl
  unfold extractFrontmatterTags at h
  split at h
  · obtain ⟨s, -, hs⟩ := List.mem_filterMap.mp h
    exact hone _ hs
  · obtain ⟨part, -, hpart⟩ := List.mem_filterMap.mp h
    exact hone _ hpart
  · exact absurd h List.not_mem_nil

lemma onLines_headings {parsers : Parsers} (hplaced : (parsers.markdown body).Placed body) (frontmatter : Json) :
    OnLines body ((parseBody parsers frontmatter body).headings.map fun h => h.startLine)
      (placesOfBody parsers body).headings := by
  show OnLines body ((extractHeadings parsers.tables.toCharTables
    ((parsers.markdown body).headings.map PlacedHeading.toHeadingNode)).map fun h => h.startLine)
    (((parsers.markdown body).headings.filter fun node => Strings.trim node.text ≠ []).map
      PlacedHeading.position)
  rw [map_startLine_extractHeadings, List.filter_map, List.map_map]
  exact onLines_map fun node hnode => hplaced.headings node (List.mem_of_mem_filter hnode)

lemma onLines_links {parsers : Parsers} (hplaced : (parsers.markdown body).Placed body) :
    OnLines body ((extractWikilinks (parseBody parsers .null body).sections ++
        extractMdLinks ((parsers.markdown body).links.map PlacedLink.toLinkNode)
          (parseBody parsers .null body).sections).map RawWikilink.line)
      (placesOfBody parsers body).wikilinks := by
  rw [List.map_append, map_line_extractMdLinks]
  refine List.rel_append (onLines_wikilinks body _) ?_
  exact onLines_map fun node hnode => hplaced.links node (List.mem_of_mem_filter hnode)

/-! ## The lines that are reported -/

/-- The line that is reported is the one on which the text begins, exactly if no line feed of a comment stands
before the text. -/
def RightUnlessBehind (source body : List Char) (line position : ℕ) : Prop :=
  BeginsOn source body position line ↔ ¬BehindCommentFeed source body position

lemma rightUnlessBehind_of_onLine (hsource : strippedSource source = front ++ body)
    (h : OnLine body line position) :
    RightUnlessBehind source body
      (line + ((lines (strippedSource source)).length - (lines body).length)) position := by
  obtain ⟨hposition, rfl⟩ := h
  have hbody : body ≠ [] := by
    rintro rfl
    simp at hposition
  rw [hsource, length_lines_append front hbody, Nat.add_sub_cancel]
  exact beginsOn_shifted_iff hsource hposition

variable {note : ParsedNote} {parsers : Parsers}

/-- Each line that is reported of a note with this body is the one on which the text begins, exactly if no line
feed of a comment stands before the text, and if there is no frontmatter where a block reference is reported. -/
structure PositionsIff (parsers : Parsers) (source : List Char) (frontmatter : Option (List Char))
    (body : List Char) (note : ParsedNote) : Prop where
  headings : List.Forall₂ (RightUnlessBehind source body) (note.headings.map fun h => h.startLine)
    (placesOfBody parsers body).headings
  sections : List.Forall₂ (fun line position => position < body.length →
    RightUnlessBehind source body line position) (note.sections.map RawSection.startLine)
    (placesOfBody parsers body).sections
  sectionEnds : List.Forall₂ (fun line position => position < body.length →
    RightUnlessBehind source body line position) (note.sections.map RawSection.endLine)
    (placesOfBody parsers body).sectionEnds
  wikilinks : ∃ found rest, note.wikilinks = found ++ rest ∧ (∀ link ∈ rest, link.line = 0) ∧
    List.Forall₂ (RightUnlessBehind source body) (found.map RawWikilink.line)
      (placesOfBody parsers body).wikilinks
  tags : ∃ found rest, note.tags = found ++ rest ∧ (∀ tag ∈ rest, tag.line = 0) ∧
    List.Forall₂ (RightUnlessBehind source body) (found.map RawTag.line) (placesOfBody parsers body).tags
  blockRefs : List.Forall₂ (fun line position => BeginsOn source body position line ↔
    ¬BehindCommentFeed source body position ∧ frontmatter = none) (note.blockRefs.map Prod.fst)
    (placesOfBody parsers body).blockRefs

/-- **Lines of the file.**  For every source, whatever the Markdown parser finds in its body, and every heading,
section, wikilink of the body, inline tag and block reference that is reported: the line is the one of the file
on which the text begins exactly if no line feed of a comment stands before the text, and for a block reference
there is no frontmatter as well. -/
theorem parseMarkdown_positions_iff (parsers : Parsers)
    (hplaced : ∀ text, (parsers.markdown text).Placed text) {source : List Char} {note : ParsedNote}
    (h : parseMarkdown parsers source = some note) :
    ∃ frontmatter body, splitFrontmatter (strippedSource source) = some (frontmatter, body) ∧
      PositionsIff parsers source frontmatter body note := by
  rw [parseMarkdown, Option.map_eq_some_iff] at h
  obtain ⟨⟨frontmatter, body⟩, hsplit, rfl⟩ := h
  obtain ⟨front, hsource, hfront⟩ := splitFrontmatter_eq_some hsplit
  have hshifted : ∀ line position, OnLine body line position → RightUnlessBehind source body
      (line + ((lines (strippedSource source)).length - (lines body).length)) position :=
    fun line position hon => rightUnlessBehind_of_onLine hsource hon
  have hplaced := hplaced body
  have hsections : ∀ s ∈ (parseBody parsers .null body).sections, 1 ≤ s.startLine ∧ s.startLine ≤ s.endLine := by
    intro s hs
    obtain ⟨hcovers, -⟩ := mem_extractSections hs
    exact ⟨hcovers.start, hcovers.le⟩
  have hbodyLines : ∀ {lines positions : List ℕ}, OnLines body lines positions →
      List.Forall₂ (fun line position => 0 < line ∧ OnLine body line position) lines positions := by
    intro lines positions hon
    exact hon.imp fun line position hline => ⟨by rw [hline.2]; omega, hline⟩
  refine ⟨frontmatter, body, hsplit, ?_, ?_, ?_, ?_, ?_, ?_⟩
  · have hon := onLines_headings hplaced ((frontmatter.map parsers.yaml).getD (.obj []))
    rw [OnLines, List.forall₂_map_left_iff] at hon
    rw [List.map_map, List.forall₂_map_left_iff]
    exact hon.imp fun (h : SluggedHeading) position => hshifted h.startLine position
  · rw [List.map_map, List.forall₂_map_left_iff, placesOfBody, List.forall₂_map_right_iff]
    refine List.forall₂_same.mpr fun s hs hposition => ?_
    exact hshifted s.startLine _ (onLine_lineStart (hsections s hs).1 hposition)
  · rw [List.map_map, List.forall₂_map_left_iff, placesOfBody, List.forall₂_map_right_iff]
    refine List.forall₂_same.mpr fun s hs hposition => ?_
    have hspan := hsections s hs
    exact hshifted s.endLine _ (onLine_lineStart (by omega) hposition)
  · refine ⟨_, _, List.map_append, ?_, ?_⟩
    · intro link hlink
      obtain ⟨found, hfound, rfl⟩ := List.mem_map.mp hlink
      have hzero : found.line = 0 := by
        split_ifs at hfound
        · exact absurd hfound List.not_mem_nil
        · exact line_of_mem_wikilinksOfValue _ hfound
      rw [shiftWikilink, if_neg (by omega), hzero]
    · have hon := hbodyLines (onLines_links hplaced)
      rw [List.forall₂_map_left_iff] at hon
      rw [List.map_map, List.forall₂_map_left_iff]
      refine hon.imp fun link position hline => ?_
      rw [Function.comp_apply, shiftWikilink, if_pos hline.1]
      exact hshifted link.line position hline.2
  · refine ⟨_, _, List.map_append, ?_, ?_⟩
    · intro tag htag
      obtain ⟨found, hfound, rfl⟩ := List.mem_map.mp htag
      have hzero := line_of_mem_extractFrontmatterTags hfound
      rw [shiftTag, if_neg (by omega), hzero]
    · have htags : OnLines body
          ((extractInlineTags parsers.tables (parseBody parsers .null body).sections).map RawTag.line)
          (placesOfBody parsers body).tags := onLines_tags parsers.tables body _
      have hon := hbodyLines htags
      rw [List.forall₂_map_left_iff] at hon
      rw [List.map_map, List.forall₂_map_left_iff]
      refine hon.imp fun tag position hline => ?_
      rw [Function.comp_apply, shiftTag, if_pos hline.1]
      exact hshifted tag.line position hline.2
  · refine (onLines_blockRefs parsers.tables body).imp fun line position hline => ?_
    rw [hline.2, hfront]
    exact beginsOn_unshifted_iff hsource hline.1

/-- Parsers with tables of ASCII, for notes without headings and links. -/
def plainParsers : Parsers :=
  ⟨⟨⟨Char.isAlphanum, fun c => [c.toLower]⟩, Char.isAlpha, List.map Char.toLower⟩, fun _ => ⟨[], []⟩,
    fun _ => .obj [("k", .str "v")]⟩

lemma plainParsers_placed (text : List Char) : (plainParsers.markdown text).Placed text :=
  ⟨fun _ h => absurd h List.not_mem_nil, fun _ h => absurd h List.not_mem_nil⟩

/-- Frontmatter, and a tag and a block reference in the body. -/
def frontmatterNote : List Char := "---\nk: v\n---\n#tag ^ref\n".toList

/-- A comment over two lines, and a tag below it. -/
def commentNote : List Char := "%%a\nb%%\n#tag\n".toList

theorem frontmatterNote_positions : ∃ note frontmatter body,
    parseMarkdown plainParsers frontmatterNote = some note ∧
      PositionsIff plainParsers frontmatterNote frontmatter body note := by
  obtain ⟨note, hnote⟩ := Option.isSome_iff_exists.mp
    (show (parseMarkdown plainParsers frontmatterNote).isSome = true by decide +kernel)
  obtain ⟨frontmatter, body, -, hpositions⟩ :=
    parseMarkdown_positions_iff plainParsers plainParsers_placed hnote
  exact ⟨note, frontmatter, body, hnote, hpositions⟩

/-- **Lines that are not counted.**  The tag is on the third line and is reported on the second; the block
reference is on the fourth line and is reported on the first. -/
theorem parseMarkdown_lines_short :
    ((parseMarkdown plainParsers commentNote).map fun note => note.tags.map RawTag.line) = some [2] ∧
      lineAt commentNote 8 + 1 = 3 ∧ commentNote[8]? = some '#' ∧
      ((parseMarkdown plainParsers frontmatterNote).map fun note => note.blockRefs) =
        some [(1, "ref".toList)] ∧
      lineAt frontmatterNote 18 + 1 = 4 ∧ frontmatterNote[18]? = some '^' := by
  decide +kernel

end Markdown
end NestWeaver
