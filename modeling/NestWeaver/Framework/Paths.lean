import Mathlib.Data.List.Basic
import NestWeaver.Framework.Strings

/-!
# Relative paths

A path of a repository is a list of names, written with slashes between them.  A relative path is walked
segment by segment from a directory: a name goes down, `..` goes up, and `.` and an empty segment stay.

From the root no step leads up (`walk`), and a walk that goes on from the root instead (`clamp`) ends where
the other one does as long as it does not leave the root.
-/

set_option linter.all false

namespace NestWeaver
namespace Paths

abbrev Text := List Char

/-- A name between two slashes. -/
def IsName (s : Text) : Prop := s ≠ [] ∧ '/' ∉ s ∧ s ≠ ['.'] ∧ s ≠ ['.', '.']

instance (s : Text) : Decidable (IsName s) :=
  inferInstanceAs (Decidable (s ≠ [] ∧ '/' ∉ s ∧ s ≠ ['.'] ∧ s ≠ ['.', '.']))

/-- A file of a repository. -/
structure RepoPath where
  segments : List Text
  ne_nil : segments ≠ []
  names : ∀ s ∈ segments, IsName s

def render (segments : List Text) : Text := ['/'].intercalate segments

def RepoPath.text (p : RepoPath) : Text := render p.segments

/-- The names of the directory of a file. -/
def RepoPath.directory (p : RepoPath) : List Text := p.segments.dropLast

/-- Everything before the last slash. -/
def parentDir (path : Text) : Text := ((Strings.rsplitOnce '/' path).map Prod.fst).getD []

/-! ## Walks -/

/-- One segment; from the root nothing leads up. -/
def walkStep (parts : List Text) (segment : Text) : Option (List Text) :=
  if segment = ['.'] ∨ segment = [] then some parts
  else if segment = ['.', '.'] then if parts = [] then none else some parts.dropLast
  else some (parts ++ [segment])

def walk (directory : List Text) (path : Text) : Option (List Text) :=
  (path.splitOn '/').foldlM walkStep directory

/-- One segment; above the root is the root. -/
def clampStep (parts : List Text) (segment : Text) : List Text :=
  if segment = ['.'] ∨ segment = [] then parts
  else if segment = ['.', '.'] then parts.dropLast
  else parts ++ [segment]

def clamp (directory : List Text) (path : Text) : List Text :=
  (path.splitOn '/').foldl clampStep directory

variable {directory front back parts : List Text} {path s : Text}

lemma clampStep_of_walkStep {parts' : List Text} (h : walkStep parts s = some parts') :
    clampStep parts s = parts' := by
  rw [walkStep] at h
  rw [clampStep]
  split_ifs at h ⊢ with hstay hup hroot
  · exact Option.some.inj h
  · exact Option.some.inj h
  · exact Option.some.inj h

/-- **A walk that stays below the root.** -/
lemma clamp_of_walk (h : walk directory path = some parts) : clamp directory path = parts := by
  rw [walk] at h
  rw [clamp]
  generalize path.splitOn '/' = segments at h ⊢
  induction segments generalizing directory with
  | nil => exact Option.some.inj h
  | cons s segments ih =>
    rw [List.foldlM_cons, Option.bind_eq_bind, Option.bind_eq_some_iff] at h
    obtain ⟨parts', hstep, hrest⟩ := h
    rw [List.foldl_cons, clampStep_of_walkStep hstep]
    exact ih hrest

/-! ## Paths as texts -/

lemma render_nil : render [] = [] := rfl

lemma render_singleton (s : Text) : render [s] = s := by
  simp [render]

lemma render_cons (s : Text) (hfront : front ≠ []) : render (s :: front) = s ++ '/' :: render front := by
  obtain ⟨s', front, rfl⟩ := List.exists_cons_of_ne_nil hfront
  simp [render, List.intercalate_cons_cons]

lemma render_append (hfront : front ≠ []) (hback : back ≠ []) :
    render (front ++ back) = render front ++ '/' :: render back := by
  induction front with
  | nil => exact absurd rfl hfront
  | cons s front ih =>
    by_cases hnil : front = []
    · subst hnil
      rw [List.singleton_append, render_cons s hback, render_singleton]
    · rw [List.cons_append, render_cons s (by simp [hnil]), render_cons s hnil, ih hnil]
      simp

lemma splitOn_render (hnames : ∀ s ∈ front, IsName s) (hfront : front ≠ []) :
    (render front).splitOn '/' = front :=
  List.splitOn_intercalate '/' (fun s hs => (hnames s hs).2.1) hfront

/-- The directory of a file, and the directory of a directory. -/
lemma parentDir_render (hnames : ∀ s ∈ front, IsName s) :
    parentDir (render front) = render front.dropLast := by
  induction front using List.reverseRecOn with
  | nil => rfl
  | append_singleton front s _ =>
    have hslash : '/' ∉ s := (hnames s (by simp)).2.1
    rw [List.dropLast_concat]
    by_cases hnil : front = []
    · subst hnil
      have hnone : Strings.rsplitOnce '/' s = none := by
        rw [Strings.rsplitOnce, Option.map_eq_none_iff, Strings.splitOnce_eq_none (by simp)]
        intro hinfix
        exact hslash (by simpa using hinfix.subset (List.mem_singleton_self '/'))
      rw [List.nil_append, render_singleton, parentDir, hnone]
      rfl
    · rw [render_append hnil (by simp), render_singleton, parentDir, Strings.rsplitOnce_append hslash]
      rfl

lemma clamp_names (hnames : ∀ s ∈ front, IsName s) (directory : List Text) :
    front.foldl clampStep directory = directory ++ front := by
  induction front generalizing directory with
  | nil => simp
  | cons s front ih =>
    obtain ⟨hne, -, hdot, hup⟩ := hnames s List.mem_cons_self
    rw [List.foldl_cons, clampStep, if_neg (not_or.mpr ⟨hdot, hne⟩), if_neg hup,
      ih fun s' hs' => hnames s' (List.mem_cons_of_mem _ hs')]
    simp

/-- A relative path is walked from the directory that it is written behind. -/
lemma clamp_render (hnames : ∀ s ∈ front, IsName s) (hfront : front ≠ []) (path : Text) :
    clamp [] (render front ++ '/' :: path) = clamp front path := by
  have hsplit : (render front ++ '/' :: path).splitOn '/' = front ++ path.splitOn '/' := by
    have hsame := splitOn_render hnames hfront
    rw [List.splitOn_eq_splitOnP] at hsame ⊢
    rw [List.splitOnP_append_cons _ _ (by rfl), hsame, List.splitOn_eq_splitOnP]
  rw [clamp, hsplit, List.foldl_append, clamp_names hnames, List.nil_append]
  rfl

end Paths
end NestWeaver
