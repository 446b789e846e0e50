import NestWeaver.Framework.Strings

/-!
# Segments of a text

A text is cut at a separator, each piece is trimmed of blanks, and the pieces that are left empty are dropped
(`segments`).  The segments are not changed by blanks around the text (`segments_trimmed`), and segments written
with a separator before each are read back (`segments_written`).
-/

set_option linter.all false

namespace NestWeaver
namespace Segments

variable {α : Type*}

/-- Without the blanks at either end. -/
def trimmed (blank : α → Bool) (s : List α) : List α := (s.dropWhile blank).rdropWhile blank

section Cut

variable [DecidableEq α] (sep : α) (blank : α → Bool)

def segments (s : List α) : List (List α) :=
  ((s.splitOn sep).map (trimmed blank)).filter fun piece => piece ≠ []

end Cut

/-- The segments with a separator before each. -/
def written (sep : α) (segs : List (List α)) : List α := segs.flatMap fun seg => sep :: seg

/-- What is left of a piece. -/
structure IsSegment (sep : α) (blank : α → Bool) (s : List α) : Prop where
  ne_nil : s ≠ []
  noSep : sep ∉ s
  trimmed_eq : trimmed blank s = s

variable {sep : α} {blank : α → Bool} {a : α} {s : List α} {segs : List (List α)}

/-! ## Trimming -/

lemma trimmed_cons (ha : blank a = true) (s : List α) : trimmed blank (a :: s) = trimmed blank s := by
  rw [trimmed, trimmed, List.dropWhile_cons_of_pos ha]

lemma trimmed_concat (ha : blank a = true) (s : List α) : trimmed blank (s ++ [a]) = trimmed blank s := by
  rw [trimmed, trimmed, List.dropWhile_append]
  split_ifs with hempty
  · rw [List.isEmpty_iff.mp hempty, List.dropWhile_cons_of_pos ha, List.dropWhile_nil]
  · rw [List.rdropWhile_concat_pos _ _ _ ha]

lemma trimmed_trimmed (s : List α) : trimmed blank (trimmed blank s) = trimmed blank s := by
  have hsub : trimmed blank s <+: s.dropWhile blank := List.rdropWhile_prefix _ _
  have hdrop : (trimmed blank s).dropWhile blank = trimmed blank s := by
    rw [List.dropWhile_eq_self_iff]
    intro hlength
    have hdropLength : 0 < (s.dropWhile blank).length := hlength.trans_le hsub.length_le
    have hhead : (trimmed blank s)[0] = (s.dropWhile blank)[0] := List.IsPrefix.getElem hsub hlength
    rw [hhead]
    simpa using List.dropWhile_get_zero_not blank s hdropLength
  rw [trimmed, hdrop]
  exact List.rdropWhile_idempotent _ _

lemma notMem_trimmed (h : a ∉ s) : a ∉ trimmed blank s := fun hmem =>
  h ((List.dropWhile_suffix blank).subset ((List.rdropWhile_prefix _ _).subset hmem))

lemma written_cons (sep : α) (seg : List α) (segs : List (List α)) :
    written sep (seg :: segs) = sep :: (seg ++ written sep segs) := by
  rw [written, List.flatMap_cons, List.cons_append]
  rfl

variable [DecidableEq α]

/-! ## Blanks around the text -/

lemma segments_cons (hsep : blank sep = false) (ha : blank a = true) (s : List α) :
    segments sep blank (a :: s) = segments sep blank s := by
  have hne : a ≠ sep := by
    rintro rfl
    rw [ha] at hsep
    exact Bool.noConfusion hsep
  obtain ⟨piece, pieces, hpieces, hcons⟩ := Strings.exists_splitOn_cons hne s
  rw [segments, segments, hcons, hpieces, List.map_cons, List.map_cons, trimmed_cons ha]

/-- A blank behind the text goes on the last piece. -/
lemma exists_splitOn_concat (ha : a ≠ sep) (s : List α) : ∃ pieces last,
    s.splitOn sep = pieces ++ [last] ∧ (s ++ [a]).splitOn sep = pieces ++ [last ++ [a]] := by
  induction s with
  | nil =>
    refine ⟨[], [], by simp, ?_⟩
    exact List.splitOn_eq_singleton fun h => ha (List.mem_singleton.mp h).symm
  | cons b s ih =>
    obtain ⟨pieces, last, hs, hconcat⟩ := ih
    by_cases hb : b = sep
    · subst hb
      refine ⟨[] :: pieces, last, ?_, ?_⟩
      · rw [Strings.splitOn_separator, hs, List.cons_append]
      · rw [List.cons_append, Strings.splitOn_separator, hconcat, List.cons_append]
    · rw [List.cons_append, List.splitOn_cons_eq_if_modifyHead, List.splitOn_cons_eq_if_modifyHead,
        if_neg (by simpa using hb), if_neg (by simpa using hb), hs, hconcat]
      cases pieces with
      | nil => exact ⟨[], b :: last, rfl, rfl⟩
      | cons piece pieces => exact ⟨(b :: piece) :: pieces, last, rfl, rfl⟩

lemma segments_concat (hsep : blank sep = false) (ha : blank a = true) (s : List α) :
    segments sep blank (s ++ [a]) = segments sep blank s := by
  have hne : a ≠ sep := by
    rintro rfl
    rw [ha] at hsep
    exact Bool.noConfusion hsep
  obtain ⟨pieces, last, hs, hconcat⟩ := exists_splitOn_concat hne s
  rw [segments, segments, hconcat, hs, List.map_append, List.map_append, List.map_singleton,
    List.map_singleton, trimmed_concat ha]

/-- **Blanks around the text do not matter.** -/
lemma segments_trimmed (hsep : blank sep = false) (s : List α) :
    segments sep blank (trimmed blank s) = segments sep blank s := by
  have hfront : ∀ s : List α, segments sep blank (s.dropWhile blank) = segments sep blank s := by
    intro s
    induction s with
    | nil => rfl
    | cons a s ih =>
      by_cases ha : blank a = true
      · rw [List.dropWhile_cons_of_pos ha, ih, segments_cons hsep ha]
      · rw [List.dropWhile_cons_of_neg ha]
  have hback : ∀ s : List α, segments sep blank (s.rdropWhile blank) = segments sep blank s := by
    intro s
    induction s using List.reverseRecOn with
    | nil => rfl
    | append_singleton s a ih =>
      by_cases ha : blank a = true
      · rw [List.rdropWhile_concat_pos _ _ _ ha, ih, segments_concat hsep ha]
      · rw [List.rdropWhile_concat_neg _ _ _ ha]
  rw [trimmed, hback, hfront]

/-! ## Reading segments back -/

lemma isSegment_of_mem {text : List α} (h : s ∈ segments sep blank text) : IsSegment sep blank s := by
  obtain ⟨hmem, hne⟩ := List.mem_filter.mp h
  obtain ⟨piece, hpiece, rfl⟩ := List.mem_map.mp hmem
  exact ⟨of_decide_eq_true hne, notMem_trimmed (Strings.notMem_of_mem_splitOn hpiece), trimmed_trimmed piece⟩

lemma splitOn_written (h : ∀ seg ∈ segs, sep ∉ seg) : (written sep segs).splitOn sep = [] :: segs := by
  induction segs with
  | nil => simp [written]
  | cons seg segs ih =>
    rw [List.forall_mem_cons] at h
    rw [written_cons, Strings.splitOn_separator]
    cases segs with
    | nil => rw [written, List.flatMap_nil, List.append_nil, List.splitOn_eq_singleton h.1]
    | cons seg' segs =>
      have hback := ih h.2
      rw [written_cons, Strings.splitOn_separator, List.cons.injEq] at hback
      rw [written_cons, List.splitOn_append_cons_self_of_not_mem h.1, hback.2]

/-- **Segments are read back.** -/
lemma segments_written (h : ∀ seg ∈ segs, IsSegment sep blank seg) :
    segments sep blank (written sep segs) = segs := by
  have hmap : segs.map (trimmed blank) = segs :=
    (List.map_congr_left fun seg hseg => (h seg hseg).trimmed_eq).trans (List.map_id segs)
  have hfilter : segs.filter (fun piece => piece ≠ []) = segs :=
    List.filter_eq_self.mpr fun seg hseg => decide_eq_true (h seg hseg).ne_nil
  rw [segments, splitOn_written fun seg hseg => (h seg hseg).noSep, List.map_cons, hmap,
    List.filter_cons_of_neg (by simp [trimmed]), hfilter]

end Segments
end NestWeaver
