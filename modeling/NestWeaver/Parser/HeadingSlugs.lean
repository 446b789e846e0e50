import Mathlib.Data.List.Nodup
import Mathlib.Logic.Function.Basic
import NestWeaver.Parser.Sections

/-!
# Slugs of headings

`extract_headings` and `slugify` of `crates/nestweaver-parser/src/markdown.rs`: every heading of a note gets
a slug, that an anchor names it by.  A slug that has been given before is given again with a number behind it.

Nothing keeps such a numbered slug from being the slug of another heading.  So the slugs of a note are distinct
exactly if no heading has a slug that the repeats of another one are numbered up to
(`nodup_slugs_iff`).

The Unicode tables are a parameter, and so is what the Markdown parser finds.
-/

set_option linter.all false

namespace NestWeaver
namespace Markdown

/-! ## The code -/

/-- The Unicode tables of the standard library. -/
structure CharTables where
  isAlphanumeric : Char → Bool
  toLowercase : Char → List Char

/-- A heading of the syntax tree, with the text that is collected from it. -/
structure HeadingNode where
  level : ℕ
  text : List Char
  startLine : ℕ
  endLine : ℕ
  deriving DecidableEq, Repr

/-- A heading as it is reported. -/
structure SluggedHeading extends RawHeading where
  slug : List Char
  deriving DecidableEq, Repr

section Code

variable (tables : CharTables)

/-- One character.  The flag says that a hyphen would open the slug or repeat the one before. -/
def slugStep (st : List Char × Bool) (ch : Char) : List Char × Bool :=
  if tables.isAlphanumeric ch then (st.1 ++ tables.toLowercase ch, false)
  else if (ch = ' ' ∨ ch = '-' ∨ ch = '_') ∧ st.2 = false then (st.1 ++ ['-'], true)
  else st

def slugify (text : List Char) : List Char :=
  (text.foldl (slugStep tables) ([], true)).1.rdropWhile (· = '-')

/-- A slug with a number behind it. -/
def numbered (slug : List Char) (n : ℕ) : List Char := slug ++ '-' :: n.repr.toList

/-- One heading: how often each slug has been repeated, and the headings so far. -/
def headingStep (st : (List Char → Option ℕ) × List SluggedHeading) (node : HeadingNode) :
    (List Char → Option ℕ) × List SluggedHeading :=
  let text := Strings.trim node.text
  if text = [] then st
  else
    let baseSlug := slugify tables text
    match st.1 baseSlug with
    | none => (Function.update st.1 baseSlug (some 0),
        st.2 ++ [⟨⟨node.level, text, node.startLine, node.endLine⟩, baseSlug⟩])
    | some n => (Function.update st.1 baseSlug (some (n + 1)),
        st.2 ++ [⟨⟨node.level, text, node.startLine, node.endLine⟩, numbered baseSlug (n + 1)⟩])

def extractHeadings (nodes : List HeadingNode) : List SluggedHeading :=
  (nodes.foldl (headingStep tables) (fun _ => none, [])).2

/-- The slugs of the headings with a text, before any is numbered. -/
def baseSlugs (nodes : List HeadingNode) : List (List Char) :=
  ((nodes.map fun node => Strings.trim node.text).filter (· ≠ [])).map (slugify tables)

end Code

/-! ## Repeats -/

variable {tables : CharTables} {slug slug' : List Char} {bases : List (List Char)} {n n' : ℕ}

lemma hyphen_notMem_repr (n : ℕ) : '-' ∉ n.repr.toList := by
  rw [Nat.toList_repr]
  intro h
  have hdigit := Nat.isDigit_of_mem_toDigits (by decide) (by decide) h
  exact absurd hdigit (by decide)

lemma repr_toList_injective (h : n.repr.toList = n'.repr.toList) : n = n' := by
  rw [Nat.toList_repr, Nat.toList_repr] at h
  rw [← Nat.ofDigitChars_ten_toDigits (n := n), h, Nat.ofDigitChars_ten_toDigits]

/-- The number of a numbered slug stands behind its last hyphen. -/
lemma numbered_injective (h : numbered slug n = numbered slug' n') : slug = slug' ∧ n = n' := by
  have hsplit := congrArg (Strings.rsplitOnce '-') h
  rw [numbered, numbered, Strings.rsplitOnce_append (hyphen_notMem_repr n),
    Strings.rsplitOnce_append (hyphen_notMem_repr n'), Option.some.injEq, Prod.mk.injEq] at hsplit
  exact ⟨hsplit.1, repr_toList_injective hsplit.2⟩

/-- The slug of the heading that so many others with this slug precede. -/
def nthSlug (slug : List Char) : ℕ → List Char
  | 0 => slug
  | n + 1 => numbered slug (n + 1)

/-- Each slug with the number of its earlier occurrences. -/
def occurrences (bases : List (List Char)) : List (List Char × ℕ) :=
  bases.zipIdx.map fun e => (e.1, (bases.take e.2).count e.1)

lemma occurrences_concat :
    occurrences (bases ++ [slug]) = occurrences bases ++ [(slug, bases.count slug)] := by
  rw [occurrences, List.zipIdx_append, List.map_append, occurrences]
  congr 1
  · refine List.map_congr_left fun e he => ?_
    have hlt := List.snd_lt_of_mem_zipIdx he
    rw [List.take_append_of_le_length (by omega)]
  · simp

lemma mem_occurrences : (slug, n) ∈ occurrences bases ↔ n < bases.count slug := by
  induction bases using List.reverseRecOn with
  | nil => simp [occurrences]
  | append_singleton bases base ih =>
    rw [occurrences_concat, List.mem_append, ih, List.mem_singleton, Prod.mk.injEq, List.count_append]
    by_cases hbase : slug = base
    · subst hbase
      simp only [true_and, List.count_singleton_self]
      omega
    · simp [hbase, Ne.symm hbase]

lemma nodup_occurrences : (occurrences bases).Nodup := by
  induction bases using List.reverseRecOn with
  | nil => simp [occurrences]
  | append_singleton bases base ih =>
    rw [occurrences_concat, List.nodup_append]
    refine ⟨ih, List.nodup_singleton _, ?_⟩
    rintro ⟨slug, n⟩ hmem e he rfl
    rw [List.mem_singleton, Prod.mk.injEq] at he
    rw [mem_occurrences, he.1, he.2] at hmem
    exact lt_irrefl _ hmem

/-! ## The slugs that are given -/

/-- After some headings: the counts are those of the repeats, and the slugs are numbered by them. -/
structure Counted (bases : List (List Char)) (st : (List Char → Option ℕ) × List SluggedHeading) :
    Prop where
  counts : ∀ slug, st.1 slug = if bases.count slug = 0 then none else some (bases.count slug - 1)
  slugs : st.2.map SluggedHeading.slug = (occurrences bases).map fun e => nthSlug e.1 e.2

lemma Counted.step {st : (List Char → Option ℕ) × List SluggedHeading} (h : Counted bases st)
    (node : HeadingNode) :
    Counted (bases ++ baseSlugs tables [node]) (headingStep tables st node) := by
  by_cases htext : Strings.trim node.text = []
  · have hnone : baseSlugs tables [node] = [] := by simp [baseSlugs, htext]
    rw [hnone, List.append_nil, headingStep, if_pos htext]
    exact h
  · have hone : baseSlugs tables [node] = [slugify tables (Strings.trim node.text)] := by
      simp [baseSlugs, htext]
    rw [hone, headingStep, if_neg htext]
    set base := slugify tables (Strings.trim node.text)
    have hcounts := h.counts
    have hother : ∀ slug, slug ≠ base → (bases ++ [base]).count slug = bases.count slug := by
      intro slug hne
      simp [List.count_append, Ne.symm hne]
    have hself : (bases ++ [base]).count base = bases.count base + 1 := by simp [List.count_append]
    have hlast : (occurrences (bases ++ [base])).map (fun e => nthSlug e.1 e.2) =
        (occurrences bases).map (fun e => nthSlug e.1 e.2) ++ [nthSlug base (bases.count base)] := by
      rw [occurrences_concat, List.map_append]
      rfl
    by_cases hfirst : bases.count base = 0
    · have hget : st.1 base = none := by rw [hcounts, if_pos hfirst]
      simp only [hget]
      refine ⟨fun slug => ?_, ?_⟩
      · show Function.update st.1 base (some 0) slug = _
        by_cases hslug : slug = base
        · rw [hslug, Function.update_self, hself, hfirst]
          rfl
        · rw [Function.update_of_ne hslug, hother slug hslug, hcounts]
      · rw [hlast, List.map_append, h.slugs, hfirst]
        rfl
    · obtain ⟨n, hn⟩ := Nat.exists_eq_succ_of_ne_zero hfirst
      have hget : st.1 base = some n := by rw [hcounts, if_neg hfirst, hn, Nat.succ_sub_one]
      simp only [hget]
      refine ⟨fun slug => ?_, ?_⟩
      · show Function.update st.1 base (some (n + 1)) slug = _
        by_cases hslug : slug = base
        · rw [hslug, Function.update_self, hself, hn, if_neg (by omega)]
          rfl
        · rw [Function.update_of_ne hslug, hother slug hslug, hcounts]
      · rw [hlast, List.map_append, h.slugs, hn]
        rfl

lemma counted_extract (nodes : List HeadingNode) :
    Counted (baseSlugs tables nodes) (nodes.foldl (headingStep tables) (fun _ => none, [])) := by
  induction nodes using List.reverseRecOn with
  | nil => exact ⟨fun slug => by simp [baseSlugs], by simp [baseSlugs, occurrences]⟩
  | append_singleton nodes node ih =>
    have hbases : baseSlugs tables (nodes ++ [node]) =
        baseSlugs tables nodes ++ baseSlugs tables [node] := by simp [baseSlugs]
    rw [hbases, List.foldl_concat]
    exact ih.step node

/-! ## Distinct slugs -/

/-- No heading has a slug that the repeats of another one are numbered up to. -/
def NoLookAlike (bases : List (List Char)) : Prop :=
  ∀ slug n, 1 ≤ n → n < bases.count slug → numbered slug n ∉ bases

/-- **Distinct slugs.**  The slugs of a note are distinct exactly if the slug of no heading is that of another
one with a number behind it, which is less than the number of the headings that have this slug. -/
theorem nodup_slugs_iff (tables : CharTables) (nodes : List HeadingNode) :
    ((extractHeadings tables nodes).map SluggedHeading.slug).Nodup ↔
      NoLookAlike (baseSlugs tables nodes) := by
  rw [extractHeadings, (counted_extract nodes).slugs,
    List.nodup_map_iff_inj_on nodup_occurrences]
  generalize baseSlugs tables nodes = bases
  constructor
  · intro hinj slug n hn hlt hmem
    have hfirst : (numbered slug n, 0) ∈ occurrences bases :=
      mem_occurrences.mpr (List.count_pos_iff.mpr hmem)
    have hsame : nthSlug slug n = nthSlug (numbered slug n) 0 := by
      obtain ⟨n, rfl⟩ := Nat.exists_eq_add_of_le' hn
      rfl
    have heq := hinj _ (mem_occurrences.mpr hlt) _ hfirst hsame
    have hzero : n = 0 := congrArg Prod.snd heq
    omega
  · intro hbases
    -- a first occurrence never looks like a repeat
    have hrepeat : ∀ slug slug' n', (slug, 0) ∈ occurrences bases → (slug', n' + 1) ∈ occurrences bases →
        slug ≠ numbered slug' (n' + 1) := by
      intro slug slug' n' hslug hslug' heq
      refine hbases slug' (n' + 1) (by omega) (mem_occurrences.mp hslug') ?_
      rw [← heq]
      exact List.count_pos_iff.mp (mem_occurrences.mp hslug)
    rintro ⟨slug, n⟩ hslug ⟨slug', n'⟩ hslug' heq
    obtain _ | n := n
    · obtain _ | n' := n'
      · rw [show slug = slug' from heq]
      · exact absurd heq (hrepeat slug slug' n' hslug hslug')
    · obtain _ | n' := n'
      · exact absurd heq.symm (hrepeat slug' slug n hslug' hslug)
      · obtain ⟨rfl, hn⟩ := numbered_injective heq
        rw [hn]

/-- The tables as far as ASCII goes. -/
def asciiTables : CharTables := ⟨Char.isAlphanum, fun c => [c.toLower]⟩

/-- A second heading "Notes", and one that is called "Notes 1". -/
def lookAlikes : List HeadingNode :=
  [⟨1, "Notes".toList, 1, 1⟩, ⟨1, "Notes".toList, 3, 3⟩, ⟨1, "Notes 1".toList, 5, 5⟩]

/-- **Two headings with one slug.** -/
theorem slugs_lookAlikes :
    (extractHeadings asciiTables lookAlikes).map SluggedHeading.slug =
        ["notes".toList, "notes-1".toList, "notes-1".toList] ∧
      ¬((extractHeadings asciiTables lookAlikes).map SluggedHeading.slug).Nodup := by
  have h : (extractHeadings asciiTables lookAlikes).map SluggedHeading.slug =
      ["notes".toList, "notes-1".toList, "notes-1".toList] := by decide +kernel
  refine ⟨h, ?_⟩
  rw [h]
  decide

end Markdown
end NestWeaver
