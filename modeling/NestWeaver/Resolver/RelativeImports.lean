import Mathlib.Data.Finset.Basic
import NestWeaver.Framework.Paths

/-!
# Relative imports

`crates/nestweaver-resolver/src/lang/javascript.rs`, `lang/python.rs` and `workspace.rs`: a relative specifier
is walked from the directory of the importing file, and completed by suffixes in order until a known file is
found.

What is asked for is the walk inside the repository (`JavaScript.inRepository`, `Python.inRepository`).  The
code goes on from the root where the walk would leave it, so for every set of known files the two agree
exactly if the specifier does not climb above the root, and for JavaScript does not name the root itself, whose
index files are looked for behind a slash (`relativeImports_iff`).
-/

set_option linter.all false

namespace NestWeaver
namespace RelativeImports

open Paths

/-- The first of the candidates that is known. -/
def firstKnown (known : Finset Text) (candidates : List Text) : Option Text :=
  candidates.find? (· ∈ known)

variable {known : Finset Text} {candidates candidates' : List Text} {path : Text}

lemma firstKnown_append :
    firstKnown known (candidates ++ candidates') =
      (firstKnown known candidates <|> firstKnown known candidates') := by
  rw [firstKnown, List.find?_append, Option.orElse_eq_orElse, Option.orElse_eq_or]
  rfl

lemma firstKnown_ne_none (h : path ∈ candidates) (hknown : path ∈ known) :
    firstKnown known candidates ≠ none := by
  rw [firstKnown, ne_eq, List.find?_eq_none]
  intro hnone
  exact hnone path h (by simpa using hknown)

/-! ## JavaScript and TypeScript -/

namespace JavaScript

def extensions : List Text :=
  [".js", ".ts", ".tsx", ".jsx", ".mts", ".cts", ".mjs", ".cjs"].map String.toList

def directoryIndexes : List Text :=
  ["/index.js", "/index.ts", "/index.tsx", "/index.jsx", "/index.mts", "/index.cts", "/index.mjs",
    "/index.cjs"].map String.toList

/-- Source extensions that each JS extension is emitted from, in preference order. -/
def emittedExtensionSources : List (Text × List Text) :=
  [(".js".toList, [".ts", ".tsx", ".js", ".jsx"].map String.toList),
    (".jsx".toList, [".tsx", ".jsx"].map String.toList),
    (".mjs".toList, [".mts", ".mjs"].map String.toList),
    (".cjs".toList, [".cts", ".cjs"].map String.toList)]

def resolveEmittedExtension (known : Finset Text) (path : Text) :
    List (Text × List Text) → Option Text
  | [] => none
  | (emitted, sources) :: rest =>
    match Strings.stripSuffix emitted path with
    | none => resolveEmittedExtension known path rest
    | some stem =>
      firstKnown known (sources.map (stem ++ ·)) <|>
        firstKnown known (sources.map fun source => stem ++ "/index".toList ++ source)

def joinPath (base rel : Text) : Text := if base = [] then rel else base ++ '/' :: rel

def normalizePath (path : Text) : Text := render (clamp [] path)

def resolveRelative (fromFile specifier : Text) (known : Finset Text) : Option Text :=
  let normalized := normalizePath (joinPath (parentDir fromFile) specifier)
  if normalized ∈ known then some normalized
  else
    firstKnown known (extensions.map (normalized ++ ·)) <|>
      (firstKnown known (directoryIndexes.map (normalized ++ ·)) <|>
        resolveEmittedExtension known normalized emittedExtensionSources)

/-! ### Inside the repository -/

/-- The sources of an emitted file. -/
def emittedCompletions (path : Text) : List (Text × List Text) → List Text
  | [] => []
  | (emitted, sources) :: rest =>
    match Strings.stripSuffix emitted path with
    | none => emittedCompletions path rest
    | some stem =>
      sources.map (stem ++ ·) ++ sources.map fun source => stem ++ "/index".toList ++ source

/-- What a path may stand for, in order. -/
def completions (path : Text) : List Text :=
  [path] ++ (extensions.map (path ++ ·) ++
    (directoryIndexes.map (path ++ ·) ++ emittedCompletions path emittedExtensionSources))

/-- The root is a directory, and may stand for the index files in it. -/
def rootCompletions : List Text := directoryIndexes.map List.tail

/-- The file that a specifier in a directory names. -/
def inRepository (directory : List Text) (specifier : Text) (known : Finset Text) : Option Text :=
  match walk directory specifier with
  | none => none
  | some [] => firstKnown known rootCompletions
  | some parts => firstKnown known (completions (render parts))

/-! ### Where the two agree -/

lemma resolveEmittedExtension_eq (known : Finset Text) (path : Text) (table : List (Text × List Text)) :
    resolveEmittedExtension known path table = firstKnown known (emittedCompletions path table) := by
  induction table with
  | nil => rfl
  | cons entry table ih =>
    obtain ⟨emitted, sources⟩ := entry
    rw [resolveEmittedExtension, emittedCompletions]
    cases Strings.stripSuffix emitted path with
    | none => exact ih
    | some stem => rw [firstKnown_append]

/-- The candidates are tried one after the other. -/
lemma resolveRelative_eq (fromFile specifier : Text) (known : Finset Text) :
    resolveRelative fromFile specifier known =
      firstKnown known (completions (normalizePath (joinPath (parentDir fromFile) specifier))) := by
  rw [completions, firstKnown_append, firstKnown_append, firstKnown_append, resolveRelative]
  set normalized := normalizePath (joinPath (parentDir fromFile) specifier)
  have hemitted := resolveEmittedExtension_eq known normalized emittedExtensionSources
  by_cases hknown : normalized ∈ known
  · have hfirst : firstKnown known [normalized] = some normalized := by simp [firstKnown, hknown]
    simp only [hknown, if_true, hfirst]
    rfl
  · have hfirst : firstKnown known [normalized] = none := by simp [firstKnown, hknown]
    simp only [hknown, if_false, hfirst, hemitted]
    rfl

/-- The path that is looked for. -/
lemma normalizePath_joinPath (p : RepoPath) (specifier : Text) :
    normalizePath (joinPath (parentDir p.text) specifier) = render (clamp p.directory specifier) := by
  have hnames : ∀ s ∈ p.directory, IsName s := fun s hs => p.names s (List.mem_of_mem_dropLast hs)
  rw [RepoPath.text, parentDir_render p.names, normalizePath, joinPath]
  by_cases hdirectory : p.directory = []
  · have hnil : render p.segments.dropLast = [] := congrArg render hdirectory
    rw [if_pos hnil, hdirectory]
  · have hne : render p.segments.dropLast ≠ [] := by
      obtain ⟨s, rest, hcons⟩ := List.exists_cons_of_ne_nil hdirectory
      have hs : s ≠ [] := (hnames s (hcons ▸ List.mem_cons_self)).1
      change render p.directory ≠ []
      rw [hcons]
      by_cases hrest : rest = []
      · rw [hrest, render_singleton]
        exact hs
      · rw [render_cons s hrest]
        simp
    rw [if_neg hne]
    exact congrArg render (clamp_render hnames hdirectory specifier)

/-- **JavaScript.**  Whatever files are known: exactly where the walk stays below the root. -/
lemma resolveRelative_iff (p : RepoPath) (specifier : Text) :
    (∀ known, resolveRelative p.text specifier known = inRepository p.directory specifier known) ↔
      ∃ parts, walk p.directory specifier = some parts ∧ parts ≠ [] := by
  simp only [resolveRelative_eq, normalizePath_joinPath]
  constructor
  · intro h
    cases hwalk : walk p.directory specifier with
    | none =>
      -- the path that is looked for instead
      have hknown := h {render (clamp p.directory specifier)}
      rw [inRepository, hwalk] at hknown
      refine absurd hknown (firstKnown_ne_none ?_ (Finset.mem_singleton_self _))
      exact List.mem_append_left _ List.mem_cons_self
    | some parts =>
      refine ⟨parts, rfl, ?_⟩
      rintro rfl
      have hknown := h {"index.js".toList}
      rw [inRepository, hwalk, clamp_of_walk hwalk] at hknown
      revert hknown
      decide
  · rintro ⟨parts, hwalk, hne⟩ known
    obtain ⟨s, rest, rfl⟩ := List.exists_cons_of_ne_nil hne
    rw [inRepository, hwalk, clamp_of_walk hwalk]

end JavaScript

/-! ## Python -/

namespace Python

def replaceDots (module : Text) : Text := module.map fun c => if c = '.' then '/' else c

/-- One parent for each dot beyond the first. -/
def parents : ℕ → Text → Text
  | 0, base => base
  | n + 1, base => parents n (parentDir base)

def dotCount (specifier : Text) : ℕ := (specifier.takeWhile (· = '.')).length

def modulePart (specifier : Text) : Text := specifier.drop (dotCount specifier)

def initFile : Text := "__init__.py".toList

def resolveImport (fromFile specifier : Text) (known : Finset Text) : Option Text :=
  if specifier.head? = some '.' then
    let base := parents (dotCount specifier - 1) (parentDir fromFile)
    let module := modulePart specifier
    if module = [] then
      let candidate := if base = [] then initFile else base ++ '/' :: initFile
      if candidate ∈ known then some candidate else none
    else
      let modulePath := replaceDots module
      if base ≠ [] then
        firstKnown known [base ++ '/' :: modulePath ++ ".py".toList,
          base ++ '/' :: modulePath ++ '/' :: initFile]
      else firstKnown known [modulePath ++ ".py".toList, modulePath ++ '/' :: initFile]
  else
    let modulePath := replaceDots specifier
    let candidates := [modulePath ++ ".py".toList, modulePath ++ '/' :: initFile,
      "src/".toList ++ modulePath ++ ".py".toList, "src/".toList ++ modulePath ++ '/' :: initFile]
    match candidates.filter (· ∈ known) with
    | [candidate] => some candidate
    | _ => none

/-! ### Inside the repository -/

/-- A file in a directory. -/
def below (directory : List Text) (file : Text) : Text :=
  if directory = [] then file else render directory ++ '/' :: file

/-- What a module may stand for, in order. -/
def completions (directory : List Text) (module : Text) : List Text :=
  if module = [] then [below directory initFile]
  else [below directory (replaceDots module ++ ".py".toList),
    below directory (replaceDots module ++ '/' :: initFile)]

/-- The file that a module names, so many directories up. -/
def inRepository (directory : List Text) (up : ℕ) (module : Text) (known : Finset Text) : Option Text :=
  if directory.length < up then none
  else firstKnown known (completions (directory.take (directory.length - up)) module)

/-! ### Where the two agree -/

lemma parents_render {directory : List Text} (hnames : ∀ s ∈ directory, IsName s) (up : ℕ) :
    parents up (render directory) = render (directory.take (directory.length - up)) := by
  induction up generalizing directory with
  | zero => simp [parents]
  | succ up ih =>
    rw [parents, parentDir_render hnames, ih fun s hs => hnames s (List.mem_of_mem_dropLast hs),
      List.length_dropLast, List.dropLast_eq_take, List.take_take]
    congr 2
    omega

lemma render_eq_nil {directory : List Text} (hnames : ∀ s ∈ directory, IsName s) :
    render directory = [] ↔ directory = [] := by
  constructor
  · intro h
    by_contra hne
    obtain ⟨s, rest, rfl⟩ := List.exists_cons_of_ne_nil hne
    have hs : s ≠ [] := (hnames s List.mem_cons_self).1
    by_cases hrest : rest = []
    · rw [hrest, render_singleton] at h
      exact hs h
    · rw [render_cons s hrest] at h
      simp at h
  · rintro rfl
    rfl

/-- The candidates are tried one after the other. -/
lemma resolveImport_eq (p : RepoPath) (rest : Text) (known : Finset Text) :
    resolveImport p.text ('.' :: rest) known =
      firstKnown known (completions
        (p.directory.take (p.directory.length - (dotCount ('.' :: rest) - 1)))
        (modulePart ('.' :: rest))) := by
  have hnames : ∀ s ∈ p.directory, IsName s := fun s hs => p.names s (List.mem_of_mem_dropLast hs)
  have hhead : ('.' :: rest).head? = some '.' := rfl
  have hparents : parents (dotCount ('.' :: rest) - 1) (parentDir p.text) =
      render (p.directory.take (p.directory.length - (dotCount ('.' :: rest) - 1))) := by
    rw [RepoPath.text, parentDir_render p.names]
    exact parents_render hnames _
  simp only [resolveImport, hhead, if_true, hparents]
  set directory := p.directory.take (p.directory.length - (dotCount ('.' :: rest) - 1)) with hdirectory
  have hbase : render directory = [] ↔ directory = [] :=
    render_eq_nil fun s hs => hnames s (List.mem_of_mem_take hs)
  simp only [completions, below, hbase]
  by_cases hmodule : modulePart ('.' :: rest) = []
  · simp only [hmodule, if_true, firstKnown, List.find?_singleton, decide_eq_true_eq]
  · by_cases hnil : directory = []
    · simp [hmodule, hnil, render_nil]
    · have hrender : render directory ≠ [] := fun h => hnil (hbase.mp h)
      simp [hmodule, hnil, hrender]

/-- **Python.**  Whatever files are known: exactly where there are as many directories as the dots go up. -/
lemma resolveImport_iff (p : RepoPath) (rest : Text) :
    (∀ known, resolveImport p.text ('.' :: rest) known = inRepository p.directory
      (dotCount ('.' :: rest) - 1) (modulePart ('.' :: rest)) known) ↔
      dotCount ('.' :: rest) - 1 ≤ p.directory.length := by
  simp only [resolveImport_eq]
  constructor
  · intro h
    by_contra hlt
    set candidates := completions (p.directory.take (p.directory.length - (dotCount ('.' :: rest) - 1)))
      (modulePart ('.' :: rest)) with hcandidates
    obtain ⟨candidate, hmem⟩ : ∃ candidate, candidate ∈ candidates := by
      rw [hcandidates, completions]
      split_ifs
      · exact ⟨_, List.mem_cons_self⟩
      · exact ⟨_, List.mem_cons_self⟩
    have hknown := h {candidate}
    rw [inRepository, if_pos (not_le.mp hlt)] at hknown
    exact firstKnown_ne_none hmem (Finset.mem_singleton_self _) hknown
  · intro hle known
    rw [inRepository, if_neg (not_lt.mpr hle)]

end Python

/-! ## The main result -/

/-- **Path arithmetic inside the repository.**  For an importing file and a relative specifier, and whatever
files are known, the code finds the file that the specifier names inside the repository exactly if, in
JavaScript and TypeScript, the specifier does not climb above the root and does not lead to the root, and, in
Python, there are as many directories around the file as there are dots beyond the first. -/
theorem relativeImports_iff (p : RepoPath) (rest : Text) :
    ((∀ known, JavaScript.resolveRelative p.text ('.' :: rest) known =
        JavaScript.inRepository p.directory ('.' :: rest) known) ↔
      ∃ parts, walk p.directory ('.' :: rest) = some parts ∧ parts ≠ []) ∧
    ((∀ known, Python.resolveImport p.text ('.' :: rest) known = Python.inRepository p.directory
        (Python.dotCount ('.' :: rest) - 1) (Python.modulePart ('.' :: rest)) known) ↔
      Python.dotCount ('.' :: rest) - 1 ≤ p.directory.length) :=
  ⟨JavaScript.resolveRelative_iff p _, Python.resolveImport_iff p rest⟩

/-- A file in a directory. -/
def mainFile : RepoPath := ⟨["app".toList, "main.ts".toList], by decide, by decide⟩

/-- **A specifier that climbs above the root.**  It is taken for one that ends there. -/
theorem relativeImports_above_root :
    JavaScript.resolveRelative mainFile.text "../../money".toList {"money.ts".toList} =
        some "money.ts".toList ∧
      JavaScript.inRepository mainFile.directory "../../money".toList {"money.ts".toList} = none ∧
      Python.resolveImport mainFile.text "...money".toList {"money.py".toList} =
        some "money.py".toList ∧
      Python.inRepository mainFile.directory 2 "money".toList {"money.py".toList} = none := by
  decide

end RelativeImports
end NestWeaver
