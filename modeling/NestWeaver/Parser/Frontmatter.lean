import NestWeaver.Framework.ByteOffsets
import NestWeaver.Framework.Lines

/-!
# Frontmatter

`split_frontmatter` of `crates/nestweaver-parser/src/markdown.rs`: a note may open with a block between two
fences.  Where the closing fence stands is counted in bytes, with one byte for the end of each line.

A line that ends with a carriage return and a line feed has an end of two bytes.  So the source is cut into its
parts exactly if no line of the block ends like that (`splitFrontmatter_iff`): otherwise the cut is so many
bytes early, and may be inside a character.
-/

set_option linter.all false

namespace NestWeaver
namespace Markdown

open ByteOffsets Lines

/-! ## The code -/

def byteOrderMark : Char := '\ufeff'

def fence : List Char := ['-', '-', '-']

/-- `trim_end`. -/
def trimEnd (s : List Char) : List Char := s.rdropWhile isWhiteSpace

/-- The first line that closes the block, with the bytes that are counted before it. -/
def closingFence (offset : ℕ) : List (List Char) → Option (ℕ × List Char)
  | [] => none
  | line :: rest =>
    if trimEnd line = fence then some (offset, line)
    else closingFence (offset + byteLength line + 1) rest

/-- What follows the fence that opens the source. -/
def afterOpening (source : List Char) : Option (List Char) :=
  let trimmed := (Strings.stripPrefix [byteOrderMark] source).getD source
  (Strings.stripPrefix (fence ++ ['\n']) trimmed).or (Strings.stripPrefix (fence ++ ['\r', '\n']) trimmed)

/-- The line end that the closing fence may have. -/
def dropLineEnd (body : List Char) : List Char :=
  ((Strings.stripPrefix ['\n'] body).or (Strings.stripPrefix ['\r', '\n'] body)).getD body

/-- The frontmatter and the body, unless a slice begins or ends inside a character. -/
def splitFrontmatter (source : List Char) : Option (Option (List Char) × List Char) :=
  match afterOpening source with
  | none => some (none, source)
  | some rest =>
    match closingFence 0 (lines rest) with
    | none => some (none, source)
    | some (offset, line) =>
      match splitAtByte rest offset, splitAtByte rest (offset + byteLength line) with
      | some (frontmatter, _), some (_, body) => some (some frontmatter, dropLineEnd body)
      | _, _ => none

/-! ## What is asked for -/

/-- A fence that opens a source. -/
def IsOpening (opening : List Char) : Prop := opening = fence ++ ['\n'] ∨ opening = fence ++ ['\r', '\n']

/-- A line that closes a block, with its end. -/
def IsClosing (line : List Char) : Prop := trimEnd line = fence

instance (line : List Char) : Decidable (IsClosing line) := inferInstanceAs (Decidable (_ = _))

/-- The source opens with a fence, and this follows. -/
def Opens (source rest : List Char) : Prop :=
  ∃ mark opening, (mark = [] ∨ mark = [byteOrderMark]) ∧ IsOpening opening ∧
    source = mark ++ opening ++ rest

/-- The parts of a source with frontmatter: whole lines, then the closing fence, and the body behind it. -/
structure Reconstructs (rest frontmatter body : List Char) (block : List (List Char)) (closing : List Char) :
    Prop where
  parts : rest = frontmatter ++ closing ++ body
  lines : frontmatter = block.flatten
  whole : ∀ line ∈ block, ∃ content, '\n' ∉ content ∧ line = content ++ ['\n']
  open_ : ∀ line ∈ block, ¬IsClosing line
  closes : IsClosing closing
  closing : (∃ content, '\n' ∉ content ∧ closing = content ++ ['\n']) ∨ '\n' ∉ closing ∧ body = []

/-- Nothing of the source is lost. -/
def LosesNothing (source : List Char) : Prop :=
  match splitFrontmatter source with
  | none => False
  | some (some frontmatter, body) =>
    ∃ rest block closing, Opens source rest ∧ Reconstructs rest frontmatter body block closing
  | some (none, body) => body = source ∧ ∀ rest, Opens source rest → ∀ line ∈ rawLines rest, ¬IsClosing line

/-- The lines before the first one that closes the block. -/
def block (rest : List Char) : List (List Char) := (rawLines rest).takeWhile fun line => ¬IsClosing line

/-- No line of the block ends with a carriage return and a line feed. -/
def NoReturns (source : List Char) : Prop :=
  ∀ rest, Opens source rest → (∃ line ∈ rawLines rest, IsClosing line) →
    ∀ line ∈ block rest, ¬['\r', '\n'] <:+ line

/-! ## The opening fence -/

variable {source rest frontmatter body line : List Char} {raws : List (List Char)} {offset : ℕ}

lemma afterOpening_eq_some : afterOpening source = some rest ↔ Opens source rest := by
  constructor
  · intro h
    have hmark : ∃ mark, (mark = [] ∨ mark = [byteOrderMark]) ∧
        source = mark ++ (Strings.stripPrefix [byteOrderMark] source).getD source := by
      by_cases hprefix : [byteOrderMark] <+: source
      · obtain ⟨tail, rfl⟩ := hprefix
        exact ⟨[byteOrderMark], .inr rfl, by rw [Strings.stripPrefix_append]; rfl⟩
      · exact ⟨[], .inl rfl, by rw [Strings.stripPrefix_eq_none.mpr hprefix]; rfl⟩
    obtain ⟨mark, hmark, hsource⟩ := hmark
    rw [afterOpening] at h
    set trimmed := (Strings.stripPrefix [byteOrderMark] source).getD source
    have hopening : ∃ opening, IsOpening opening ∧ trimmed = opening ++ rest := by
      obtain h | ⟨-, h⟩ := Option.or_eq_some_iff.mp h
      · exact ⟨_, .inl rfl, (Strings.append_of_stripPrefix h).symm⟩
      · exact ⟨_, .inr rfl, (Strings.append_of_stripPrefix h).symm⟩
    obtain ⟨opening, hopening, htrimmed⟩ := hopening
    exact ⟨mark, opening, hmark, hopening, by rw [List.append_assoc, ← htrimmed, ← hsource]⟩
  · rintro ⟨mark, opening, hmark, hopening, rfl⟩
    have htrimmed : (Strings.stripPrefix [byteOrderMark] (mark ++ opening ++ rest)).getD
        (mark ++ opening ++ rest) = opening ++ rest := by
      obtain rfl | rfl := hmark
      · have hnone : ¬[byteOrderMark] <+: [] ++ opening ++ rest := by
          obtain rfl | rfl := hopening
          · simp [fence, byteOrderMark]
          · simp [fence, byteOrderMark]
        rw [Strings.stripPrefix_eq_none.mpr hnone]
        rfl
      · rw [List.append_assoc, Strings.stripPrefix_append]
        rfl
    rw [afterOpening]
    simp only [htrimmed]
    obtain rfl | rfl := hopening
    · rw [Strings.stripPrefix_append]
      rfl
    · have hnone : ¬fence ++ ['\n'] <+: fence ++ ['\r', '\n'] ++ rest := by simp [fence]
      rw [Strings.stripPrefix_eq_none.mpr hnone, Strings.stripPrefix_append]
      rfl

lemma Opens.unique {rest' : List Char} (h : Opens source rest) (h' : Opens source rest') : rest = rest' :=
  Option.some.inj ((afterOpening_eq_some.mpr h).symm.trans (afterOpening_eq_some.mpr h'))

/-! ## The closing fence -/

lemma trimEnd_concat {c : Char} (hc : isWhiteSpace c = true) (s : List Char) :
    trimEnd (s ++ [c]) = trimEnd s := List.rdropWhile_concat_pos _ _ _ hc

lemma stripReturn_cases (content : List Char) :
    stripReturn content ++ ['\r'] = content ∨ stripReturn content = content ∧ ¬['\r'] <:+ content := by
  by_cases h : ['\r'] <:+ content
  · obtain ⟨front, rfl⟩ := h
    rw [stripReturn, Strings.stripSuffix_append]
    exact .inl rfl
  · rw [stripReturn, Strings.stripSuffix_of_not_suffix h]
    exact .inr ⟨rfl, h⟩

/-- The end of a line is blank. -/
lemma trimEnd_lineContent (line : List Char) : trimEnd (lineContent line) = trimEnd line := by
  by_cases hend : ['\n'] <:+ line
  · obtain ⟨content, rfl⟩ := hend
    rw [lineContent_append_lineFeed, trimEnd_concat (by decide)]
    obtain h | ⟨h, -⟩ := stripReturn_cases content
    · rw [← h, trimEnd_concat (by decide), h]
    · rw [h]
  · rw [lineContent, Strings.stripSuffix_of_not_suffix hend]

/-- The bytes that are counted for these lines. -/
def counted (raws : List (List Char)) : ℕ :=
  (raws.map fun line => byteLength (lineContent line) + 1).sum

/-- How many lines end with a carriage return and a line feed. -/
def returns (raws : List (List Char)) : ℕ := raws.countP fun line => ['\r', '\n'] <:+ line

lemma counted_add_returns (h : ∀ line ∈ raws, ∃ content, '\n' ∉ content ∧ line = content ++ ['\n']) :
    counted raws + returns raws = byteLength raws.flatten := by
  induction raws with
  | nil => rfl
  | cons line raws ih =>
    obtain ⟨content, -, rfl⟩ := h line List.mem_cons_self
    have hrest := ih fun line hline => h line (List.mem_cons_of_mem _ hline)
    rw [counted] at hrest ⊢
    rw [returns] at hrest ⊢
    rw [List.map_cons, List.sum_cons, List.countP_cons, List.flatten_cons, byteLength_append, ← hrest,
      lineContent_append_lineFeed, byteLength_append]
    have hfeed : byteLength ['\n'] = 1 := by decide
    have hsuffix : ['\r', '\n'] <:+ content ++ ['\n'] ↔ ['\r'] <:+ content := by
      constructor
      · rintro ⟨front, hfront⟩
        have hsplit : (front ++ ['\r']) ++ ['\n'] = content ++ ['\n'] := by simpa using hfront
        exact ⟨front, List.append_cancel_right hsplit⟩
      · rintro ⟨front, rfl⟩
        exact ⟨front, by simp⟩
    obtain hreturn | ⟨hsame, hreturn⟩ := stripReturn_cases content
    · have hlength : byteLength content = byteLength (stripReturn content) + 1 := by
        conv_lhs => rw [← hreturn]
        rw [byteLength_append]
        rfl
      rw [if_pos (by simpa using hsuffix.mpr ⟨_, hreturn⟩)]
      omega
    · rw [if_neg (by simpa using fun hsuff => hreturn (hsuffix.mp hsuff)), hsame]
      omega

lemma closingFence_eq (offset : ℕ) (raws : List (List Char)) :
    closingFence offset (raws.map lineContent) =
      ((raws.dropWhile fun line => ¬IsClosing line).head?).map fun line =>
        (offset + counted (raws.takeWhile fun line => ¬IsClosing line), lineContent line) := by
  induction raws generalizing offset with
  | nil => rfl
  | cons line raws ih =>
    rw [List.map_cons, closingFence, trimEnd_lineContent]
    by_cases hline : IsClosing line
    · have hfence : trimEnd line = fence := hline
      rw [if_pos hfence, List.dropWhile_cons_of_neg (by simpa using hline),
        List.takeWhile_cons_of_neg (by simpa using hline)]
      rfl
    · have hfence : ¬trimEnd line = fence := hline
      rw [if_neg hfence, ih, List.dropWhile_cons_of_pos (by simpa using hline),
        List.takeWhile_cons_of_pos (by simpa using hline)]
      refine congrArg (Option.map · _) (funext fun closing => ?_)
      rw [counted, counted, List.map_cons, List.sum_cons, Nat.add_assoc, Nat.add_assoc, Nat.add_assoc]

/-! ## Where the cuts are -/

/-- The block ends with the first line that closes it. -/
lemma rawLines_split (h : ∃ line ∈ rawLines rest, IsClosing line) :
    ∃ closing back, rawLines rest = block rest ++ closing :: back ∧ IsClosing closing := by
  have hne : (rawLines rest).dropWhile (fun line => ¬IsClosing line) ≠ [] := by
    rw [ne_eq, List.dropWhile_eq_nil_iff]
    intro hall
    obtain ⟨line, hline, hclosing⟩ := h
    exact (of_decide_eq_true (hall line hline)) hclosing
  obtain ⟨closing, back, hdrop⟩ := List.exists_cons_of_ne_nil hne
  refine ⟨closing, back, ?_, ?_⟩
  · rw [block, ← hdrop, List.takeWhile_append_dropWhile]
  · have hhead := List.head_dropWhile_not (fun line => ¬IsClosing line) hne
    simp only [hdrop, List.head_cons] at hhead
    simpa using hhead

lemma not_closing_of_mem_block (h : line ∈ block rest) : ¬IsClosing line := by
  simpa using List.mem_takeWhile_imp h

/-- Which lines the parts of a source are. -/
lemma Reconstructs.block_eq {blockLines : List (List Char)} {closing : List Char}
    (h : Reconstructs rest frontmatter body blockLines closing) : blockLines = block rest := by
  have hraw : rawLines rest = blockLines ++ rawLines (closing ++ body) := by
    rw [h.parts, h.lines, List.append_assoc]
    have hwhole := h.whole
    clear h
    induction blockLines with
    | nil => rfl
    | cons line blockLines ih =>
      obtain ⟨content, hcontent, rfl⟩ := hwhole line List.mem_cons_self
      rw [List.flatten_cons, List.append_assoc, List.append_assoc, List.singleton_append,
        rawLines_append_lineFeed hcontent, ih fun line hline => hwhole line (List.mem_cons_of_mem _ hline)]
      rfl
  have hclosing : ∃ back, rawLines (closing ++ body) = closing :: back := by
    obtain ⟨content, hcontent, hline⟩ | ⟨hnotMem, hbody⟩ := h.closing
    · exact ⟨rawLines body, by
        rw [hline, List.append_assoc, List.singleton_append, rawLines_append_lineFeed hcontent]⟩
    · refine ⟨[], ?_⟩
      rw [hbody, List.append_nil]
      refine rawLines_of_notMem ?_ hnotMem
      intro hnil
      have hfence := h.closes
      rw [hnil] at hfence
      exact absurd hfence (by decide)
  obtain ⟨back, hback⟩ := hclosing
  rw [block, hraw, hback, List.takeWhile_append_of_pos fun line hline => by simpa using h.open_ line hline,
    List.takeWhile_cons_of_neg (by simpa using h.closes), List.append_nil]

lemma closingFence_rest {closing : List Char} {back : List (List Char)}
    (h : rawLines rest = block rest ++ closing :: back) (hclosing : IsClosing closing) :
    closingFence 0 (lines rest) = some (counted (block rest), lineContent closing) := by
  have hdrop : (rawLines rest).dropWhile (fun line => ¬IsClosing line) = closing :: back := by
    rw [h, List.dropWhile_append_of_pos fun line hline => by simpa using not_closing_of_mem_block hline,
      List.dropWhile_cons_of_neg (by simpa using hclosing)]
  rw [lines_eq_map_rawLines, closingFence_eq, hdrop, Nat.zero_add]
  rfl

lemma closingFence_eq_none (h : ∀ line ∈ rawLines rest, ¬IsClosing line) :
    closingFence 0 (lines rest) = none := by
  have hdrop : (rawLines rest).dropWhile (fun line => ¬IsClosing line) = [] := by
    rw [List.dropWhile_eq_nil_iff]
    intro line hline
    simpa using h line hline
  rw [lines_eq_map_rawLines, closingFence_eq, hdrop]
  rfl

/-- What is dropped behind the closing fence is the end of its line. -/
lemma exists_lineEnd {text closing : List Char} {back : List (List Char)}
    (h : rawLines text = closing :: back) :
    ∃ ending, closing = lineContent closing ++ ending ∧ dropLineEnd (ending ++ back.flatten) = back.flatten := by
  obtain ⟨content, tail, -, rfl, -, -⟩ | ⟨rfl, hnotMem, -, rfl⟩ := rawLines_eq_cons h
  · rw [lineContent_append_lineFeed]
    obtain hreturn | ⟨hsame, -⟩ := stripReturn_cases content
    · refine ⟨['\r', '\n'], ?_, ?_⟩
      · conv_lhs => rw [← hreturn]
        simp
      · have hnone : ¬['\n'] <+: ['\r', '\n'] ++ back.flatten := by simp
        rw [dropLineEnd, Strings.stripPrefix_eq_none.mpr hnone, Strings.stripPrefix_append]
        rfl
    · refine ⟨['\n'], by rw [hsame], ?_⟩
      rw [dropLineEnd, Strings.stripPrefix_append]
      rfl
  · exact ⟨[], by rw [lineContent_of_notMem hnotMem, List.append_nil], rfl⟩

lemma returns_eq_zero : returns raws = 0 ↔ ∀ line ∈ raws, ¬['\r', '\n'] <:+ line := by
  simp [returns, List.countP_eq_zero]

lemma splitFrontmatter_of_closing (hopens : Opens source rest) {closing : List Char}
    {back : List (List Char)} (h : rawLines rest = block rest ++ closing :: back)
    (hclosing : IsClosing closing) :
    splitFrontmatter source =
      match splitAtByte rest (counted (block rest)),
        splitAtByte rest (counted (block rest) + byteLength (lineContent closing)) with
      | some (frontmatter, _), some (_, body) => some (some frontmatter, dropLineEnd body)
      | _, _ => none := by
  rw [splitFrontmatter, afterOpening_eq_some.mpr hopens]
  simp only [closingFence_rest h hclosing]

lemma splitFrontmatter_eq_none (hopens : Opens source rest) (h : ∀ line ∈ rawLines rest, ¬IsClosing line) :
    splitFrontmatter source = some (none, source) := by
  rw [splitFrontmatter, afterOpening_eq_some.mpr hopens]
  simp only [closingFence_eq_none h]

lemma splitFrontmatter_of_not_opens (h : ∀ rest, ¬Opens source rest) :
    splitFrontmatter source = some (none, source) := by
  have hnone : afterOpening source = none := by
    rw [Option.eq_none_iff_forall_ne_some]
    intro rest hrest
    exact h rest (afterOpening_eq_some.mp hrest)
  rw [splitFrontmatter, hnone]

/-- A source with a block, none of whose lines ends with a carriage return and a line feed. -/
lemma losesNothing_of_returns_eq_zero (hopens : Opens source rest) {closing : List Char}
    {back : List (List Char)} (h : rawLines rest = block rest ++ closing :: back)
    (hclosing : IsClosing closing) (hreturns : returns (block rest) = 0) : LosesNothing source := by
  obtain ⟨hwhole, hdrop, hrest⟩ := rawLines_eq_append h
  obtain ⟨ending, hending, hbody⟩ := exists_lineEnd hdrop
  have htail : rest.drop (block rest).flatten.length = closing ++ back.flatten := by
    rw [← flatten_rawLines (rest.drop _), hdrop, List.flatten_cons]
  rw [htail] at hrest
  have hcounted : counted (block rest) = byteLength (block rest).flatten := by
    rw [← counted_add_returns hwhole, hreturns, Nat.add_zero]
  have hfrontmatter : splitAtByte rest (counted (block rest)) =
      some ((block rest).flatten, closing ++ back.flatten) := by
    have hsplit := splitAtByte_append (block rest).flatten (closing ++ back.flatten)
    rwa [← hrest, ← hcounted] at hsplit
  have hafter : splitAtByte rest (counted (block rest) + byteLength (lineContent closing)) =
      some ((block rest).flatten ++ lineContent closing, ending ++ back.flatten) := by
    have hparts : ((block rest).flatten ++ lineContent closing) ++ (ending ++ back.flatten) = rest := by
      calc ((block rest).flatten ++ lineContent closing) ++ (ending ++ back.flatten)
          = (block rest).flatten ++ ((lineContent closing ++ ending) ++ back.flatten) := by simp
        _ = rest := by rw [← hending, ← hrest]
    have hsplit := splitAtByte_append ((block rest).flatten ++ lineContent closing) (ending ++ back.flatten)
    rwa [hparts, byteLength_append, ← hcounted] at hsplit
  rw [LosesNothing, splitFrontmatter_of_closing hopens h hclosing, hfrontmatter, hafter]
  refine ⟨rest, block rest, closing, hopens, ?_⟩
  refine ⟨?_, rfl, hwhole, fun line hline => not_closing_of_mem_block hline, hclosing, ?_⟩
  · show rest = (block rest).flatten ++ closing ++ dropLineEnd (ending ++ back.flatten)
    rw [hbody, List.append_assoc]
    exact hrest
  · obtain ⟨content, tail, hcontent, hline, -, -⟩ | ⟨hline, hnotMem, -, rfl⟩ := rawLines_eq_cons hdrop
    · exact .inl ⟨content, hcontent, hline⟩
    · exact .inr ⟨hline ▸ hnotMem, hbody⟩

lemma returns_eq_zero_of_losesNothing (hopens : Opens source rest) {closing : List Char}
    {back : List (List Char)} (h : rawLines rest = block rest ++ closing :: back)
    (hclosing : IsClosing closing) (hloses : LosesNothing source) : returns (block rest) = 0 := by
  obtain ⟨hwhole, -, -⟩ := rawLines_eq_append h
  rw [LosesNothing, splitFrontmatter_of_closing hopens h hclosing] at hloses
  cases hfront : splitAtByte rest (counted (block rest)) with
  | none =>
    rw [hfront] at hloses
    exact hloses.elim
  | some parts =>
    rw [hfront] at hloses
    cases hback : splitAtByte rest (counted (block rest) + byteLength (lineContent closing)) with
    | none =>
      rw [hback] at hloses
      exact hloses.elim
    | some parts' =>
      rw [hback] at hloses
      obtain ⟨rest', blockLines, closing', hopens', hparts⟩ := hloses
      obtain rfl := hopens.unique hopens'
      have hlength : byteLength parts.1 = counted (block rest) := (splitAtByte_eq_some hfront).2
      rw [hparts.lines, hparts.block_eq, ← counted_add_returns hwhole] at hlength
      omega

/-- **The parts of a source.**  For every source, the code slices it between characters and the source is put
together of an opening fence, whole lines that do not close the block, the closing fence and the body, or there
is no block and the body is the source, exactly if no line of the block ends with a carriage return and a line
feed. -/
theorem splitFrontmatter_iff (source : List Char) : LosesNothing source ↔ NoReturns source := by
  by_cases hopens : ∃ rest, Opens source rest
  · obtain ⟨rest, hopens⟩ := hopens
    by_cases hcloses : ∃ line ∈ rawLines rest, IsClosing line
    · obtain ⟨closing, back, h, hclosing⟩ := rawLines_split hcloses
      constructor
      · intro hloses rest' hopens' _
        obtain rfl := hopens.unique hopens'
        exact returns_eq_zero.mp (returns_eq_zero_of_losesNothing hopens h hclosing hloses)
      · intro hreturns
        exact losesNothing_of_returns_eq_zero hopens h hclosing
          (returns_eq_zero.mpr (hreturns rest hopens hcloses))
    · push Not at hcloses
      have hnone := splitFrontmatter_eq_none hopens hcloses
      constructor
      · intro _ rest' hopens' hcloses'
        obtain rfl := hopens.unique hopens'
        obtain ⟨line, hline, hclosing⟩ := hcloses'
        exact absurd hclosing (hcloses line hline)
      · intro _
        rw [LosesNothing, hnone]
        refine ⟨rfl, fun rest' hopens' => ?_⟩
        obtain rfl := hopens.unique hopens'
        exact hcloses
  · push Not at hopens
    constructor
    · intro _ rest hopens'
      exact absurd hopens' (hopens rest)
    · intro _
      rw [LosesNothing, splitFrontmatter_of_not_opens hopens]
      exact ⟨rfl, fun rest hopens' => absurd hopens' (hopens rest)⟩

/-- A block of one line, with the line ends of Windows. -/
def windowsNote : List Char := "---\r\na: 1\r\n---\r\nText\n".toList

/-- Two such lines, and one that ends with a character of two bytes. -/
def mixedNote : List Char := "---\na\r\nb\r\n\u00e9\n---\nText\n".toList

/-- **Cuts that come early.**  A hyphen of the closing fence is left in the body, and a slice begins inside a
character. -/
theorem splitFrontmatter_returns :
    splitFrontmatter windowsNote = some (some "a: 1\r".toList, "-\r\nText\n".toList) ∧
      ¬LosesNothing windowsNote ∧ splitFrontmatter mixedNote = none ∧ ¬LosesNothing mixedNote := by
  have hopens : Opens windowsNote "a: 1\r\n---\r\nText\n".toList :=
    afterOpening_eq_some.mp (by decide +kernel)
  have hraw : rawLines "a: 1\r\n---\r\nText\n".toList =
      block "a: 1\r\n---\r\nText\n".toList ++ "---\r\n".toList :: ["Text\n".toList] := by decide +kernel
  have hmixed : splitFrontmatter mixedNote = none := by decide +kernel
  refine ⟨by decide +kernel, ?_, hmixed, ?_⟩
  · intro hloses
    have hzero := returns_eq_zero_of_losesNothing hopens hraw (by decide) hloses
    exact absurd hzero (by decide +kernel)
  · rw [LosesNothing, hmixed]
    exact not_false

end Markdown
end NestWeaver
