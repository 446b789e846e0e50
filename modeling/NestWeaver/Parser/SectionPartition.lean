import NestWeaver.Parser.Sections

/-!
# The partition of a body

The headings of a body are in order, and each takes some of its lines.  What is left falls into parts: one
before the first heading, and one behind each heading up to the next (`parts`).  Headings and parts together
are the lines of the body, each once (`lines_eq_parts`), and the sections that `extract_sections` builds are
these parts: one for each heading, and one for what is before them unless it is blank.

The spans of the sections do not overlap, so a line has at most one section that it is a line of
(`Owner.unique`).
-/

set_option linter.all false

namespace NestWeaver
namespace Markdown

open Lines

/-! ## The parts of a body -/

/-- Headings as the Markdown parser delivers them: each takes some lines, and ends before the next begins. -/
structure Ordered (headings : List RawHeading) : Prop where
  placed : ∀ h ∈ headings, 1 ≤ h.startLine ∧ h.startLine ≤ h.endLine
  pairwise : headings.Pairwise fun h next => h.endLine < next.startLine

section Parts

variable (ls : List (List Char))

/-- The lines that a heading takes. -/
def headingLines (h : RawHeading) : List (List Char) := (ls.take h.endLine).drop (h.startLine - 1)

/-- The lines before the next heading. -/
def linesBefore (next : Option RawHeading) : List (List Char) :=
  match next with
  | some next => ls.take (next.startLine - 1)
  | none => ls

/-- The lines behind each heading, up to the next heading of any level. -/
def bodyParts : List RawHeading → List (List (List Char))
  | [] => []
  | h :: rest => (linesBefore ls rest.head?).drop h.endLine :: bodyParts rest

/-- Each heading with the lines behind it. -/
def headingParts (headings : List RawHeading) : List (List (List Char)) :=
  List.zipWith (fun h own => headingLines ls h ++ own) headings (bodyParts ls headings)

/-- A section whose lines are these. -/
structure HasLines (s : RawSection) (own : List (List Char)) : Prop where
  text : s.text = joinLines own
  start : 1 ≤ s.startLine
  span : own ≠ [] → own = (ls.take s.endLine).drop (s.startLine - 1)

/-- The sections of a body are the parts of its lines. -/
structure Partition (headings : List RawHeading) (preamble : Option RawSection)
    (sections : List RawSection) : Prop where
  lines : ls = linesBefore ls headings.head? ++ (headingParts ls headings).flatten
  blank : preamble = none → Strings.trim (joinLines (linesBefore ls headings.head?)) = []
  first : ∀ s ∈ preamble, s.headingIdx = none ∧ HasLines ls s (linesBefore ls headings.head?)
  length : sections.length = headings.length
  each : ∀ idx s, sections[idx]? = some s → ∃ h own, headings[idx]? = some h ∧
    (bodyParts ls headings)[idx]? = some own ∧ s.headingIdx = some idx ∧ s.startLine = h.endLine + 1 ∧
    HasLines ls s own

end Parts

variable {ls : List (List Char)} {headings rest : List RawHeading} {h : RawHeading} {s s' : RawSection}
variable {own own' : List (List Char)} {k k' n : ℕ}

lemma Ordered.tail (hordered : Ordered (h :: rest)) : Ordered rest :=
  ⟨fun h' hh' => hordered.placed h' (List.mem_cons_of_mem _ hh'), (List.pairwise_cons.mp hordered.pairwise).2⟩

lemma Ordered.lt_head (hordered : Ordered (h :: rest)) : ∀ next ∈ rest.head?, h.endLine < next.startLine :=
  fun next hnext => (List.pairwise_cons.mp hordered.pairwise).1 next (List.mem_of_mem_head? hnext)

lemma drop_take_append (ls : List (List Char)) {m n : ℕ} (h : m ≤ n) :
    ls.drop m = (ls.take n).drop m ++ ls.drop n := by
  have hdrop : (ls.drop m).drop (n - m) = ls.drop n := by rw [List.drop_drop, Nat.add_sub_cancel' h]
  rw [List.drop_take, ← hdrop, List.take_append_drop]

/-- From before the first heading on, the lines are those up to it, and the headings with what is behind. -/
lemma drop_eq_parts (hordered : Ordered headings) {m : ℕ} (hm : ∀ h ∈ headings.head?, m < h.startLine) :
    ls.drop m = (linesBefore ls headings.head?).drop m ++ (headingParts ls headings).flatten := by
  induction headings generalizing m with
  | nil =>
    show ls.drop m = ls.drop m ++ []
    rw [List.append_nil]
  | cons h rest ih =>
    have hfirst := hm h rfl
    have hplaced := hordered.placed h List.mem_cons_self
    have htail := ih hordered.tail hordered.lt_head
    show ls.drop m = (ls.take (h.startLine - 1)).drop m ++
      ((headingLines ls h ++ (linesBefore ls rest.head?).drop h.endLine) :: headingParts ls rest).flatten
    rw [List.flatten_cons, List.append_assoc, ← htail, headingLines,
      ← drop_take_append ls (by omega), ← drop_take_append ls (by omega)]

lemma lines_eq_parts (hordered : Ordered headings) :
    ls = linesBefore ls headings.head? ++ (headingParts ls headings).flatten := by
  have hdrop : ls.drop 0 = (linesBefore ls headings.head?).drop 0 ++ (headingParts ls headings).flatten :=
    drop_eq_parts hordered fun h hh => (hordered.placed h (List.mem_of_mem_head? hh)).1
  simpa using hdrop

/-! ## The sections are the parts -/

/-- The lines from one to another are put together. -/
lemma sliceLines_eq_joinLines {start stop : ℕ} (hstart : 1 ≤ start) :
    sliceLines ls start stop = joinLines ((ls.take stop).drop (start - 1)) := by
  rw [sliceLines]
  by_cases hslice : (ls.take stop).drop (start - 1) = []
  · rw [hslice]
    split_ifs <;> rfl
  · have hlength : ¬(start = 0 ∨ ls.length < start) := by
      rw [List.drop_eq_nil_iff, List.length_take] at hslice
      omega
    rw [if_neg hlength]
    simp only [flatMap_lineFeed hslice]
    rw [List.getLast?_concat, if_pos rfl, List.dropLast_concat]

/-- What is before a heading, as the lines up to a number. -/
lemma linesBefore_eq_take (ls : List (List Char)) (next : Option RawHeading) :
    linesBefore ls next = ls.take (match next with
      | some next => next.startLine - 1
      | none => ls.length) := by
  cases next with
  | none => exact (List.take_length).symm
  | some next => rfl

lemma preamble_eq_none (h : preamble ls headings = none) :
    Strings.trim (joinLines (linesBefore ls headings.head?)) = [] := by
  rw [linesBefore_eq_take]
  simp only [preamble] at h
  set preambleEnd := match headings.head? with
    | some first => first.startLine - 1
    | none => ls.length
  split_ifs at h with hcond
  by_cases hend : 1 ≤ preambleEnd
  · have hblank : Strings.trim (sliceLines ls 1 preambleEnd) = [] := by
      by_contra hne
      exact hcond ⟨hend, hne⟩
    rwa [sliceLines_eq_joinLines (Nat.le_refl 1), Nat.sub_self, List.drop_zero] at hblank
  · have hzero : preambleEnd = 0 := by omega
    rw [hzero]
    rfl

lemma hasLines_preamble (h : preamble ls headings = some s) :
    s.headingIdx = none ∧ HasLines ls s (linesBefore ls headings.head?) := by
  rw [linesBefore_eq_take]
  simp only [preamble] at h
  set preambleEnd := match headings.head? with
    | some first => first.startLine - 1
    | none => ls.length
  split_ifs at h with hcond
  obtain rfl := Option.some_inj.mp h
  refine ⟨rfl, ?_, Nat.le_refl 1, fun _ => rfl⟩
  show sliceLines ls 1 preambleEnd = _
  rw [sliceLines_eq_joinLines (Nat.le_refl 1)]
  rfl

lemma headingSection_headingIdx (idx : ℕ) (h : RawHeading) (next : Option RawHeading) :
    (headingSection ls idx h next).headingIdx = some idx := by
  unfold headingSection
  dsimp only
  split_ifs <;> rfl

lemma headingSection_startLine (idx : ℕ) (h : RawHeading) (next : Option RawHeading) :
    (headingSection ls idx h next).startLine = h.endLine + 1 := by
  unfold headingSection
  dsimp only
  split_ifs <;> rfl

/-- The section behind a heading, given the line that it ends with. -/
lemma hasLines_upTo (idx : ℕ) (h : RawHeading) (bodyEnd : ℕ) :
    HasLines ls (if ls.length < h.endLine + 1 then ⟨some idx, h.endLine + 1, h.endLine + 1, []⟩
      else ⟨some idx, h.endLine + 1, max bodyEnd (h.endLine + 1),
        if h.endLine + 1 ≤ bodyEnd then sliceLines ls (h.endLine + 1) bodyEnd else []⟩)
      ((ls.take bodyEnd).drop h.endLine) := by
  by_cases hown : (ls.take bodyEnd).drop h.endLine = []
  · -- no line is left
    rw [hown]
    refine ⟨?_, ?_, fun hne => absurd rfl hne⟩
    · split_ifs
      · rfl
      · show sliceLines ls (h.endLine + 1) bodyEnd = _
        rw [sliceLines_eq_joinLines (by omega), Nat.add_sub_cancel, hown]
      · rfl
    · split_ifs <;> simp
  · have hlt : h.endLine < bodyEnd ∧ h.endLine < ls.length := by
      rw [List.drop_eq_nil_iff, List.length_take] at hown
      omega
    rw [if_neg (by omega), if_pos (by omega), Nat.max_eq_left (by omega),
      sliceLines_eq_joinLines (by omega), Nat.add_sub_cancel]
    exact ⟨rfl, by simp, fun _ => rfl⟩

lemma hasLines_headingSection (idx : ℕ) (h : RawHeading) (next : Option RawHeading) :
    HasLines ls (headingSection ls idx h next) ((linesBefore ls next).drop h.endLine) := by
  cases next with
  | none =>
    rw [show linesBefore ls none = ls.take ls.length from List.take_length.symm]
    exact hasLines_upTo idx h ls.length
  | some next => exact hasLines_upTo idx h (next.startLine - 1)

lemma length_headingSections (idx : ℕ) (headings : List RawHeading) :
    (headingSections ls idx headings).length = headings.length := by
  induction headings generalizing idx with
  | nil => rfl
  | cons h rest ih => rw [headingSections, List.length_cons, ih, List.length_cons]

lemma hasLines_headingSections {idx : ℕ} (hk : (headingSections ls idx headings)[k]? = some s) :
    ∃ h own, headings[k]? = some h ∧ (bodyParts ls headings)[k]? = some own ∧
      s.headingIdx = some (idx + k) ∧ s.startLine = h.endLine + 1 ∧ HasLines ls s own := by
  induction headings generalizing idx k with
  | nil =>
    rw [headingSections, List.getElem?_nil] at hk
    cases hk
  | cons h rest ih =>
    rw [headingSections] at hk
    cases k with
    | zero =>
      obtain rfl := Option.some_inj.mp hk
      exact ⟨h, _, rfl, rfl, headingSection_headingIdx idx h _, headingSection_startLine idx h _,
        hasLines_headingSection idx h _⟩
    | succ k =>
      obtain ⟨h', own, hh', hown, hidx, hstart, hlines⟩ := ih hk
      exact ⟨h', own, hh', hown, by rw [hidx, Nat.add_right_comm]; rfl, hstart, hlines⟩

lemma partition_sections (hordered : Ordered headings) :
    Partition ls headings (preamble ls headings) (headingSections ls 0 headings) := by
  refine ⟨lines_eq_parts hordered, preamble_eq_none, fun s hs => hasLines_preamble hs,
    length_headingSections 0 headings, fun idx s hs => ?_⟩
  obtain ⟨h, own, hh, hown, hidx, hstart, hlines⟩ := hasLines_headingSections hs
  exact ⟨h, own, hh, hown, by rw [hidx, Nat.zero_add], hstart, hlines⟩

/-! ## The section that a line is of -/

/-- One of the lines of a section has this number. -/
def OwnsLine (ls : List (List Char)) (s : RawSection) (n : ℕ) : Prop :=
  ∃ own, HasLines ls s own ∧ s.startLine ≤ n ∧ n < s.startLine + own.length

/-- The section with this index has the line with this number. -/
def Owner (ls : List (List Char)) (sections : List RawSection) (n k : ℕ) : Prop :=
  ∃ s, sections[k]? = some s ∧ OwnsLine ls s n

lemma OwnsLine.le_endLine (h : OwnsLine ls s n) : s.startLine ≤ n ∧ n ≤ s.endLine := by
  obtain ⟨own, hlines, hstart, hlt⟩ := h
  refine ⟨hstart, ?_⟩
  have hne : own ≠ [] := by
    rintro rfl
    simp at hlt
    omega
  have hpos := hlines.start
  have hlength := congrArg List.length (hlines.span hne)
  rw [List.length_drop, List.length_take] at hlength
  omega

lemma headingSection_endLine_le (idx : ℕ) (h next : RawHeading) :
    (headingSection ls idx h (some next)).endLine ≤ max (next.startLine - 1) (h.endLine + 1) := by
  unfold headingSection
  dsimp only
  split_ifs
  · exact Nat.le_max_right _ _
  · exact Nat.le_refl _
  · exact Nat.le_refl _

/-- The section behind a heading ends before the section behind a later heading begins. -/
lemma headingSection_endLine_le_endLine (hordered : Ordered (h :: rest)) {h' : RawHeading} (hh' : h' ∈ rest)
    (idx : ℕ) : (headingSection ls idx h rest.head?).endLine ≤ h'.endLine := by
  cases rest with
  | nil => exact absurd hh' List.not_mem_nil
  | cons next rest =>
    have hend : (headingSection ls idx h (some next)).endLine ≤ max (next.startLine - 1) (h.endLine + 1) :=
      headingSection_endLine_le idx h next
    have hlt := hordered.lt_head next rfl
    have hnext := hordered.tail.placed next List.mem_cons_self
    have hle : next.endLine ≤ h'.endLine := by
      obtain rfl | hmem := List.mem_cons.mp hh'
      · exact Nat.le_refl _
      · have hafter := (List.pairwise_cons.mp hordered.tail.pairwise).1 h' hmem
        have hplaced := hordered.tail.placed h' hh'
        omega
    show (headingSection ls idx h (some next)).endLine ≤ h'.endLine
    omega

lemma pairwise_headingSections (hordered : Ordered headings) (idx : ℕ) :
    (headingSections ls idx headings).Pairwise fun s s' => s.endLine < s'.startLine := by
  induction headings generalizing idx with
  | nil => exact List.Pairwise.nil
  | cons h rest ih =>
    rw [headingSections]
    refine List.Pairwise.cons (fun s' hs' => ?_) (ih hordered.tail (idx + 1))
    obtain ⟨k, hk⟩ := List.mem_iff_getElem?.mp hs'
    obtain ⟨h', -, hh', -, -, hstart, -⟩ := hasLines_headingSections hk
    have hend : (headingSection ls idx h rest.head?).endLine ≤ h'.endLine :=
      headingSection_endLine_le_endLine hordered (List.mem_of_getElem? hh') idx
    omega

lemma preamble_endLine (hordered : Ordered headings) (hs : preamble ls headings = some s) :
    ∀ h ∈ headings, s.endLine < h.endLine := by
  intro h hh
  cases headings with
  | nil => exact absurd hh List.not_mem_nil
  | cons first rest =>
    simp only [preamble] at hs
    split_ifs at hs
    obtain rfl := Option.some_inj.mp hs
    show first.startLine - 1 < h.endLine
    have hfirst := hordered.placed first List.mem_cons_self
    obtain rfl | hmem := List.mem_cons.mp hh
    · omega
    · have hafter := (List.pairwise_cons.mp hordered.pairwise).1 h hmem
      have hplaced := hordered.placed h hh
      omega

/-- A section ends before the next begins. -/
lemma pairwise_extractSections (hordered : Ordered headings) :
    (extractSections ls headings).Pairwise fun s s' => s.endLine < s'.startLine := by
  rw [extractSections, List.pairwise_append]
  refine ⟨by cases preamble ls headings <;> simp, pairwise_headingSections hordered 0, fun s hs s' hs' => ?_⟩
  obtain ⟨k, hk⟩ := List.mem_iff_getElem?.mp hs'
  obtain ⟨h', -, hh', -, -, hstart, -⟩ := hasLines_headingSections hk
  have hend := preamble_endLine hordered (Option.mem_toList.mp hs) h' (List.mem_of_getElem? hh')
  omega

/-- A line is in the span of at most one section. -/
lemma eq_of_span (hordered : Ordered headings) (hs : (extractSections ls headings)[k]? = some s)
    (hs' : (extractSections ls headings)[k']? = some s') (hn : s.startLine ≤ n ∧ n ≤ s.endLine)
    (hn' : s'.startLine ≤ n ∧ n ≤ s'.endLine) : k = k' := by
  have hsorted : (extractSections ls headings).Pairwise fun s s' => s.endLine < s'.startLine :=
    pairwise_extractSections hordered
  have hpairwise := List.pairwise_iff_getElem.mp hsorted
  obtain ⟨hk, rfl⟩ := List.getElem?_eq_some_iff.mp hs
  obtain ⟨hk', rfl⟩ := List.getElem?_eq_some_iff.mp hs'
  obtain hlt | heq | hlt := lt_trichotomy k k'
  · have := hpairwise k k' hk hk' hlt
    omega
  · exact heq
  · have := hpairwise k' k hk' hk hlt
    omega

lemma Owner.unique (hordered : Ordered headings) (h : Owner ls (extractSections ls headings) n k)
    (h' : Owner ls (extractSections ls headings) n k') : k = k' := by
  obtain ⟨s, hs, howns⟩ := h
  obtain ⟨s', hs', howns'⟩ := h'
  exact eq_of_span hordered hs hs' howns.le_endLine howns'.le_endLine

end Markdown
end NestWeaver
