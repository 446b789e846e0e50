import Mathlib.Order.Bounds.Basic
import NestWeaver.Framework.Accumulate
import NestWeaver.Framework.Chains

/-!
# Which declaration an exported name stands for

A module exports a name by declaring it, by naming an export of another module, or through its stars.
`exportedTarget` follows the re-exports from a file and a name, with the pairs on the way as its visited
set, at most 3 hops deep and 256 steps long, and answers only when it has seen everything and found one
declaration.

The answer is exact (`exportedTarget_exact`): it is given where every chain of re-exports is short, none
meets an unresolved export, and all of them lead to one declaration, and then the depth is that of the
shortest chain.  What tells declarations apart is the file, the name and, for a method of an exported
literal, its line.
-/

set_option linter.all false

namespace NestWeaver
namespace ExportTargets

open Chains

/-! ## The code -/

/-- The tables of the import graph that say what a file exports. -/
structure ImportGraph where
  exportAliases : String → String → Option (String × Option String)
  literalExportLines : String → String → Option ℕ
  starExports : String → List String
  unresolvedExports : String → List String
  incompleteStars : List String

/-- A declaration: its file, its name there, and the line of a method of an exported literal. -/
structure Target where
  file : String
  name : String
  line : Option ℕ
  deriving DecidableEq, Repr

/-- What the exploration has changed so far. -/
structure Exploration where
  visited : List (String × String)
  targets : List (Target × ℕ)
  remaining : ℕ
  deriving DecidableEq, Repr

namespace Exploration

/-- The declaration is found at this depth: the least depth is kept. -/
def found (target : Target) (depth : ℕ) (s : Exploration) : Exploration :=
  { s with targets :=
      upsert Prod.fst target (target, depth) (fun old => (old.1, min old.2 depth)) s.targets }

def enter (pair : String × String) (s : Exploration) : Exploration :=
  { s with visited := pair :: s.visited }

def leave (pair : String × String) (s : Exploration) : Exploration :=
  { s with visited := s.visited.erase pair }

end Exploration

/-- The sources one after the other, until one is incomplete or there are two declarations. -/
def visitSources (visit : String → Exploration → Bool × Exploration) :
    List String → Exploration → Bool × Exploration
  | [], s => (true, s)
  | source :: rest, s =>
    match visit source s with
    | (false, s) => (false, s)
    | (true, s) => if 1 < s.targets.length then (false, s) else visitSources visit rest s

namespace ImportGraph

variable (g : ImportGraph)

/-- The declaration that a file exports under a name, with its own name there. -/
def targetOf (file name declared : String) : Target :=
  ⟨file, declared, g.literalExportLines file name⟩

/-- What the steps lead to from a file and a name, and whether that is everything.  The calls nest at most
four deep, so `fuel` does not run out before the depth does. -/
def collectExportTargets : ℕ → String → String → ℕ → Exploration → Bool × Exploration
  | 0, _, _, _, s => (false, s)
  | fuel + 1, file, name, depth, s =>
    if 3 < depth ∨ s.remaining = 0 ∨ 1 < s.targets.length then (false, s)
    else
      let s := { s with remaining := s.remaining - 1 }
      if (file, name) ∈ s.visited then (true, s)
      else
        let s := s.enter (file, name)
        if name ∈ g.unresolvedExports file then (false, s.leave (file, name))
        else
          match g.exportAliases file name with
          | some (declared, some source) =>
            let (complete, s) := collectExportTargets fuel source declared (depth + 1) s
            (complete, s.leave (file, name))
          | some (declared, none) =>
            (true, (s.found (g.targetOf file name declared) depth).leave (file, name))
          | none =>
            if name = "default" then (true, s.leave (file, name))
            else if file ∈ g.incompleteStars then (false, s.leave (file, name))
            else
              let (complete, s) := visitSources
                (fun source => collectExportTargets fuel source name (depth + 1))
                (g.starExports file) s
              (complete, s.leave (file, name))

def exportedTargetWithDeclaration (file name : String) : Option (Target × ℕ) :=
  match g.collectExportTargets 5 file name 0 ⟨[], [], 256⟩ with
  | (true, ⟨_, [target], _⟩) => some target
  | _ => none

/-- The file and the name of the declaration, and its depth. -/
def exportedTarget (file name : String) : Option (String × String × ℕ) :=
  (g.exportedTargetWithDeclaration file name).map fun (target, depth) =>
    (target.file, target.name, depth)

/-! ## The chains of re-exports -/

/-- The steps of re-export: an export of the file's own shadows its stars, and `default` passes none. -/
def next (pair : String × String) : List (String × String) :=
  match g.exportAliases pair.1 pair.2 with
  | some (declared, some source) => [(source, declared)]
  | some (_, none) => []
  | none =>
    if pair.2 = "default" then [] else (g.starExports pair.1).map fun source => (source, pair.2)

/-- The declaration that a pair stands for by itself. -/
def declares (pair : String × String) : Option Target :=
  match g.exportAliases pair.1 pair.2 with
  | some (declared, none) => some (g.targetOf pair.1 pair.2 declared)
  | _ => none

/-- An unresolved export, or an incomplete list of stars where the stars are asked. -/
def Blocked (pair : String × String) : Prop :=
  pair.2 ∈ g.unresolvedExports pair.1 ∨
    g.exportAliases pair.1 pair.2 = none ∧ pair.2 ≠ "default" ∧ pair.1 ∈ g.incompleteStars

instance (pair : String × String) : Decidable (g.Blocked pair) :=
  inferInstanceAs (Decidable (_ ∨ _ ∧ _ ∧ _))

/-- A chain from the pair reaches the declaration in so many hops. -/
def Declared (pair : String × String) (target : Target) (hops : ℕ) : Prop :=
  ∃ path q, Chain g.next ([], pair) (path, q) ∧ q ∉ path ∧ g.declares q = some target ∧
    path.length = hops

/-- Everything can be seen: no chain has more than 3 hops or meets a blocked pair, and there are at most 256
steps. -/
def Explorable (pair : String × String) : Prop :=
  Exhausted g.next g.Blocked 4 ([], pair) ∧ (walk g.next 4 [] pair).length ≤ 256

end ImportGraph
/-! ## What the exploration sees -/

namespace ImportGraph

variable {g : ImportGraph}

/-- The declarations after a chain. -/
def note (g : ImportGraph) (targets : List (Target × ℕ))
    (c : List (String × String) × String × String) : List (Target × ℕ) :=
  if c.2 ∈ c.1 then targets
  else match g.declares c.2 with
    | some target => upsert Prod.fst target (target, c.1.length)
        (fun old => (old.1, min old.2 c.1.length)) targets
    | none => targets

/-- The exploration after some chains, each of them a step. -/
def seen (g : ImportGraph) (chains : List (List (String × String) × String × String))
    (s : Exploration) : Exploration :=
  ⟨s.visited, chains.foldl g.note s.targets, s.remaining - chains.length⟩

/-- The steps from a pair are taken, and all of them, and there are no two declarations. -/
def Sees (g : ImportGraph) (k : ℕ) (path : List (String × String)) (q : String × String)
    (s s' : Exploration) : Prop :=
  Exhausted g.next g.Blocked k (path, q) ∧ (walk g.next k path q).length ≤ s.remaining ∧
    s' = g.seen (walk g.next k path q) s ∧ s'.targets.length ≤ 1

lemma length_upsert_le {α κ : Type*} [DecidableEq κ] (key : α → κ) (k : κ) (new : α) (update : α → α)
    (es : List α) : es.length ≤ (upsert key k new update es).length := by
  induction es with
  | nil => simp
  | cons e es ih =>
    rw [upsert]
    split_ifs
    · simp
    · simpa using ih

lemma length_note_le (targets : List (Target × ℕ)) (c : List (String × String) × String × String) :
    targets.length ≤ (g.note targets c).length := by
  unfold note
  split_ifs
  · exact Nat.le_refl _
  · cases g.declares c.2 with
    | none => exact Nat.le_refl _
    | some target => exact length_upsert_le ..

lemma length_foldl_note_le (chains : List (List (String × String) × String × String))
    (targets : List (Target × ℕ)) : targets.length ≤ (chains.foldl g.note targets).length := by
  induction chains generalizing targets with
  | nil => exact Nat.le_refl _
  | cons c chains ih => exact (length_note_le targets c).trans (ih _)

lemma seen_append (chains chains' : List (List (String × String) × String × String))
    (s : Exploration) : g.seen (chains ++ chains') s = g.seen chains' (g.seen chains s) := by
  simp only [seen, List.foldl_append, List.length_append, Nat.sub_sub]

/-- The sources of a list of stars are seen one after the other. -/
lemma visitSources_eq_true {visit : String → Exploration → Bool × Exploration} {k : ℕ} {name : String}
    {path : List (String × String)}
    (hvisit : ∀ source s s', s.visited = path →
      (visit source s = (true, s') ∧ s'.targets.length ≤ 1 ↔ g.Sees k path (source, name) s s'))
    {sources : List String} {s s' : Exploration} (hs : s.visited = path) :
    (visitSources visit sources s = (true, s') ∧ s'.targets.length ≤ 1) ↔
      (∀ source ∈ sources, Exhausted g.next g.Blocked k (path, source, name)) ∧
      ((sources.map fun source => (source, name)).flatMap (walk g.next k path)).length ≤ s.remaining ∧
      s' = g.seen ((sources.map fun source => (source, name)).flatMap (walk g.next k path)) s ∧
      s'.targets.length ≤ 1 := by
  induction sources generalizing s with
  | nil => simp [visitSources, seen, eq_comm]
  | cons source rest ih =>
    have hstep : (visitSources visit (source :: rest) s = (true, s') ∧ s'.targets.length ≤ 1) ↔
        ∃ s₁, (visit source s = (true, s₁) ∧ s₁.targets.length ≤ 1) ∧
          visitSources visit rest s₁ = (true, s') ∧ s'.targets.length ≤ 1 := by
      rw [visitSources]
      obtain ⟨complete, s₁⟩ := visit source s
      cases complete with
      | false => simp
      | true =>
        by_cases hmany : 1 < s₁.targets.length
        · simp [hmany, Nat.not_le_of_lt hmany]
        · simp [hmany, Nat.le_of_not_lt hmany]
    rw [hstep]
    simp only [List.map_cons, List.flatMap_cons, List.length_append, seen_append, List.forall_mem_cons]
    constructor
    · rintro ⟨s₁, hsource, hrest⟩
      obtain ⟨hex, hlen, rfl, hone⟩ := (hvisit source s s₁ hs).mp hsource
      have hs₁ : (g.seen (walk g.next k path (source, name)) s).visited = path := hs
      obtain ⟨hexs, hlens, rfl, hones⟩ := (ih hs₁).mp hrest
      refine ⟨⟨hex, hexs⟩, ?_, rfl, hones⟩
      simp only [seen] at hlens
      omega
    · rintro ⟨⟨hex, hexs⟩, hlen, rfl, hone⟩
      have hs₁ : (g.seen (walk g.next k path (source, name)) s).visited = path := hs
      refine ⟨g.seen (walk g.next k path (source, name)) s, (hvisit source s _ hs).mpr ⟨hex, by omega, rfl, ?_⟩, ?_⟩
      · exact (length_foldl_note_le _ _).trans hone
      · refine (ih hs₁).mpr ⟨hexs, ?_, rfl, hone⟩
        simp only [seen]
        omega

/-- A step that closes a cycle changes nothing. -/
lemma note_closed {targets : List (Target × ℕ)} {path : List (String × String)} {p : String × String}
    (hp : p ∈ path) : g.note targets (path, p) = targets := if_pos hp

lemma walk_open {k : ℕ} {path : List (String × String)} {p : String × String} (hp : p ∉ path) :
    walk g.next (k + 1) path p = [(path, p)] ++ (g.next p).flatMap (walk g.next k (p :: path)) := by
  rw [walk, if_neg hp, List.singleton_append]

/-- The exploration inside a pair that was not on the way before. -/
def inside (g : ImportGraph) (pair : String × String) (s : Exploration) : Exploration :=
  ⟨pair :: s.visited, g.note s.targets (s.visited, pair), s.remaining - 1⟩

lemma seen_open {pair : String × String} {chains : List (List (String × String) × String × String)}
    {s : Exploration} : g.seen ([(s.visited, pair)] ++ chains) s =
      (g.seen chains (g.inside pair s)).leave pair := by
  rw [seen_append]
  simp [seen, inside, Exploration.leave]

/-- What is seen inside a pair, and what is seen once it is left. -/
lemma leave_eq_true {pair : String × String} {P : Prop} {r : Bool × Exploration}
    {chains : List (List (String × String) × String × String)} {s s' : Exploration}
    (hremaining : s.remaining ≠ 0) (hclear : ¬ g.Blocked pair)
    (hr : ∀ s₁, (r = (true, s₁) ∧ s₁.targets.length ≤ 1) ↔
      P ∧ chains.length ≤ s.remaining - 1 ∧ s₁ = g.seen chains (g.inside pair s) ∧
        s₁.targets.length ≤ 1) :
    ((r.1, r.2.leave pair) = (true, s') ∧ s'.targets.length ≤ 1) ↔
      (¬ g.Blocked pair ∧ P) ∧ 1 + chains.length ≤ s.remaining ∧
        s' = (g.seen chains (g.inside pair s)).leave pair ∧ s'.targets.length ≤ 1 := by
  constructor
  · rintro ⟨h, hone⟩
    obtain ⟨hcomplete, rfl⟩ := Prod.mk.inj h
    obtain ⟨hP, hlen, heq, hone⟩ := (hr r.2).mp ⟨Prod.ext hcomplete rfl, hone⟩
    exact ⟨⟨hclear, hP⟩, by omega, by rw [heq], hone⟩
  · rintro ⟨⟨-, hP⟩, hlen, rfl, hone⟩
    obtain ⟨rfl, hone⟩ := (hr _).mpr ⟨hP, by omega, rfl, hone⟩
    exact ⟨rfl, hone⟩

/-- Nothing is seen without a step that is left, or beside two declarations. -/
lemma not_sees_of_stop {k : ℕ} {q : String × String} {s s' : Exploration}
    (hstop : s.remaining = 0 ∨ 1 < s.targets.length) : ¬ g.Sees (k + 1) s.visited q s s' := by
  rintro ⟨-, hlen, rfl, hone⟩
  obtain hstop | hstop := hstop
  · rw [walk, List.length_cons] at hlen
    omega
  · exact absurd ((length_foldl_note_le _ _).trans hone) (by omega)

/-- The step that closes a cycle is all that is seen. -/
lemma sees_closed {k : ℕ} {p : String × String} {s s' : Exploration} (hp : p ∈ s.visited)
    (hremaining : s.remaining ≠ 0) :
    ((true, { s with remaining := s.remaining - 1 }) = (true, s') ∧ s'.targets.length ≤ 1) ↔
      g.Sees (k + 1) s.visited p s s' := by
  have hwalk : walk g.next (k + 1) s.visited p = [(s.visited, p)] := by
    rw [walk, if_pos hp]
  rw [Sees, hwalk, exhausted_succ]
  simp only [seen, List.foldl_cons, List.foldl_nil, note_closed hp, List.length_singleton, hp,
    true_or, true_and, Prod.mk.injEq]
  constructor
  · rintro ⟨rfl, hone⟩
    exact ⟨by omega, rfl, hone⟩
  · rintro ⟨-, rfl, hone⟩
    exact ⟨rfl, hone⟩

lemma not_blocked_of_alias {file name : String} {entry : String × Option String}
    (hresolved : name ∉ g.unresolvedExports file) (halias : g.exportAliases file name = some entry) :
    ¬ g.Blocked (file, name) := by
  rintro (h | ⟨h, -⟩)
  · exact hresolved h
  · exact absurd (halias.symm.trans h) (by simp)

/-- Inside a pair that declares nothing by itself. -/
lemma inside_of_declares_none {pair : String × String} {s : Exploration} (hdeclares : g.declares pair = none) :
    g.inside pair s = { s with remaining := s.remaining - 1 }.enter pair := by
  simp only [inside, note, hdeclares, ite_self, Exploration.enter]

/-- Inside a pair with a declaration of its own. -/
lemma inside_of_declares_some {pair : String × String} {target : Target} {s : Exploration}
    (hp : pair ∉ s.visited) (hdeclares : g.declares pair = some target) :
    g.inside pair s =
      ({ s with remaining := s.remaining - 1 }.enter pair).found target s.visited.length := by
  simp only [inside, note, hdeclares, hp, if_false, Exploration.enter, Exploration.found]

/-- What a call sees, by induction on how deep the calls may still nest: the depth is the number of pairs
on the way. -/
lemma collectExportTargets_eq_true {k depth : ℕ} {file name : String} {s s' : Exploration}
    (hdepth : s.visited.length = depth) (hk : depth + k = 4) :
    (g.collectExportTargets (k + 1) file name depth s = (true, s') ∧ s'.targets.length ≤ 1) ↔
      g.Sees k s.visited (file, name) s s' := by
  induction k generalizing depth file name s s' with
  | zero =>
    rw [collectExportTargets, if_pos (.inl (by omega))]
    refine iff_of_false (fun h => ?_) fun h => not_exhausted_zero h.1
    exact absurd (congrArg Prod.fst h.1) (by simp)
  | succ k ih =>
    have hshallow : ¬ 3 < depth := by omega
    rw [collectExportTargets]
    by_cases hstop : s.remaining = 0 ∨ 1 < s.targets.length
    · rw [if_pos (.inr hstop)]
      exact iff_of_false (fun h => absurd (congrArg Prod.fst h.1) (by simp)) (not_sees_of_stop hstop)
    rw [if_neg (by tauto)]
    have hremaining : s.remaining ≠ 0 := fun h => hstop (.inl h)
    dsimp only
    by_cases hseen : (file, name) ∈ s.visited
    · rw [if_pos hseen]
      exact sees_closed hseen hremaining
    rw [if_neg hseen, Sees, exhausted_succ, walk_open hseen, seen_open, List.length_append,
      List.length_singleton]
    simp only [hseen, false_or]
    by_cases hunresolved : name ∈ g.unresolvedExports file
    · rw [if_pos hunresolved]
      refine iff_of_false (fun h => absurd (congrArg Prod.fst h.1) (by simp)) fun h => ?_
      exact h.1.1 (.inl hunresolved)
    rw [if_neg hunresolved]
    have hdepth' : ((file, name) :: s.visited).length = depth + 1 := by
      rw [List.length_cons, hdepth]
    cases halias : g.exportAliases file name with
    | some entry =>
      obtain ⟨declared, source⟩ := entry
      have hclear := not_blocked_of_alias hunresolved halias
      cases source with
      | some source =>
        have hnext : g.next (file, name) = [(source, declared)] := by simp only [next, halias]
        have hdeclares : g.declares (file, name) = none := by simp only [declares, halias]
        rw [hnext]
        simp only [List.flatMap_singleton, List.forall_mem_singleton]
        refine leave_eq_true hremaining hclear fun s₁ => ?_
        rw [inside_of_declares_none hdeclares]
        exact ih hdepth' (by omega)
      | none =>
        have hnext : g.next (file, name) = [] := by simp only [next, halias]
        have hdeclares : g.declares (file, name) = some (g.targetOf file name declared) := by
          simp only [declares, halias]
        have hinside := inside_of_declares_some hseen hdeclares
        rw [hdepth] at hinside
        dsimp only
        rw [hnext, ← hinside]
        refine leave_eq_true (r := (true, g.inside (file, name) s)) hremaining hclear fun s₁ => ?_
        simp [seen, eq_comm]
    | none =>
      have hdeclares : g.declares (file, name) = none := by simp only [declares, halias]
      dsimp only
      by_cases hdefault : name = "default"
      · have hnext : g.next (file, name) = [] := by
          simp only [next, halias]
          exact if_pos hdefault
        have hclear : ¬ g.Blocked (file, name) := by
          rintro (h | ⟨-, h, -⟩)
          · exact hunresolved h
          · exact h hdefault
        rw [if_pos hdefault, hnext, ← inside_of_declares_none hdeclares]
        refine leave_eq_true (r := (true, g.inside (file, name) s)) hremaining hclear fun s₁ => ?_
        simp [seen, eq_comm]
      rw [if_neg hdefault]
      by_cases hincomplete : file ∈ g.incompleteStars
      · rw [if_pos hincomplete]
        refine iff_of_false (fun h => absurd (congrArg Prod.fst h.1) (by simp)) fun h => ?_
        exact h.1.1 (.inr ⟨halias, hdefault, hincomplete⟩)
      have hclear : ¬ g.Blocked (file, name) := by
        rintro (h | ⟨-, -, h⟩)
        · exact hunresolved h
        · exact hincomplete h
      have hnext : g.next (file, name) = (g.starExports file).map fun source => (source, name) := by
        simp only [next, halias, hdefault, if_false]
      rw [if_neg hincomplete, hnext]
      refine leave_eq_true hremaining hclear fun s₁ => ?_
      rw [inside_of_declares_none hdeclares, List.forall_mem_map]
      refine visitSources_eq_true (fun source t t' ht => ?_) rfl
      rw [← ht]
      exact ih (by rw [ht, hdepth']) (by omega)

end ImportGraph

/-! ## The main results -/

namespace ImportGraph

variable {g : ImportGraph}

/-- The declaration at the end of a chain, and the number of hops. -/
def finding (g : ImportGraph) (c : List (String × String) × String × String) : Option (Target × ℕ) :=
  if c.2 ∈ c.1 then none else (g.declares c.2).map fun target => (target, c.1.length)

lemma foldl_note (chains : List (List (String × String) × String × String)) :
    chains.foldl g.note [] = leasts (chains.filterMap g.finding) := by
  rw [leasts, accumulate, List.foldl_filterMap]
  congr 1
  funext targets c
  unfold note finding
  split_ifs
  · rfl
  · cases g.declares c.2 with
    | none => rfl
    | some target => rfl

lemma mem_findings {pair : String × String} (h : g.Explorable pair) {target : Target} {hops : ℕ} :
    (target, hops) ∈ (walk g.next 4 [] pair).filterMap g.finding ↔ g.Declared pair target hops := by
  rw [List.mem_filterMap]
  constructor
  · rintro ⟨⟨path, q⟩, hc, hfind⟩
    rw [finding] at hfind
    split_ifs at hfind with hopen
    obtain ⟨target', hdeclares, heq⟩ := Option.map_eq_some_iff.mp hfind
    obtain ⟨rfl, rfl⟩ := Prod.mk.inj heq
    exact ⟨path, q, (mem_walk.mp hc).1, hopen, hdeclares, rfl⟩
  · rintro ⟨path, q, hchain, hopen, hdeclares, rfl⟩
    refine ⟨(path, q), mem_walk.mpr ⟨hchain, h.1.short _ hchain⟩, ?_⟩
    rw [finding, if_neg hopen, hdeclares]
    rfl

lemma exportedTargetWithDeclaration_eq_some {file name : String} {target : Target} {depth : ℕ} :
    g.exportedTargetWithDeclaration file name = some (target, depth) ↔
      g.Explorable (file, name) ∧
        (∀ target' hops, g.Declared (file, name) target' hops → target' = target) ∧
        IsLeast {hops | g.Declared (file, name) target hops} depth := by
  have hfold : g.exportedTargetWithDeclaration file name = some (target, depth) ↔
      ∃ s', (g.collectExportTargets 5 file name 0 ⟨[], [], 256⟩ = (true, s') ∧ s'.targets.length ≤ 1) ∧
        s'.targets = [(target, depth)] := by
    rw [exportedTargetWithDeclaration]
    split
    · next visited found remaining heq =>
      rw [heq]
      constructor
      · rintro h
        exact ⟨_, ⟨rfl, Nat.le_refl 1⟩, by rw [Option.some_inj.mp h]⟩
      · rintro ⟨s', ⟨h, -⟩, htargets⟩
        obtain ⟨-, rfl⟩ := Prod.mk.inj h
        exact congrArg some (List.singleton_inj.mp htargets)
    · next hother =>
      refine iff_of_false (by simp) ?_
      rintro ⟨⟨visited, targets, remaining⟩, ⟨h, -⟩, rfl⟩
      exact hother _ _ _ h
  have hsees : ∀ s', (g.collectExportTargets 5 file name 0 ⟨[], [], 256⟩ = (true, s') ∧
      s'.targets.length ≤ 1) ↔ g.Sees 4 [] (file, name) ⟨[], [], 256⟩ s' :=
    fun s' => collectExportTargets_eq_true (s := ⟨[], [], 256⟩) rfl rfl
  rw [hfold]
  constructor
  · rintro ⟨s', hs', htargets⟩
    obtain ⟨hex, hlen, rfl, -⟩ := (hsees s').mp hs'
    have hexplorable : g.Explorable (file, name) := ⟨hex, hlen⟩
    rw [seen, foldl_note, leasts_eq_singleton] at htargets
    refine ⟨hexplorable, fun target' hops h => ?_, ?_⟩
    · exact htargets.1 _ ((mem_findings hexplorable).mpr h)
    · simpa only [mem_findings hexplorable] using htargets.2
  · rintro ⟨hexplorable, hone, hleast⟩
    have htargets : (g.seen (walk g.next 4 [] (file, name)) ⟨[], [], 256⟩).targets = [(target, depth)] := by
      rw [seen, foldl_note, leasts_eq_singleton]
      simp only [mem_findings hexplorable]
      exact ⟨fun b hb => hone b.1 b.2 hb, hleast⟩
    refine ⟨_, (hsees _).mpr ⟨hexplorable.1, hexplorable.2, rfl, ?_⟩, htargets⟩
    rw [htargets, List.length_singleton]

/-- The same re-exports, with the stars listed in another order. -/
structure SameExports (g g' : ImportGraph) : Prop where
  aliases : g'.exportAliases = g.exportAliases
  lines : g'.literalExportLines = g.literalExportLines
  stars : ∀ file, (g'.starExports file).Perm (g.starExports file)
  unresolved : g'.unresolvedExports = g.unresolvedExports
  incomplete : g'.incompleteStars = g.incompleteStars

section Order

variable {g' : ImportGraph} (h : SameExports g g')

include h

lemma SameExports.next (pair : String × String) : (g'.next pair).Perm (g.next pair) := by
  rw [ImportGraph.next, ImportGraph.next, h.aliases]
  split
  · exact .refl _
  · exact .refl _
  · split_ifs
    · exact .refl _
    · exact (h.stars pair.1).map _

lemma SameExports.blocked : g'.Blocked = g.Blocked := by
  funext pair
  rw [Blocked, Blocked, h.aliases, h.unresolved, h.incomplete]

lemma SameExports.declares : g'.declares = g.declares := by
  funext pair
  rw [ImportGraph.declares, ImportGraph.declares, h.aliases]
  simp only [targetOf, h.lines]

lemma SameExports.explorable (pair : String × String) : g'.Explorable pair ↔ g.Explorable pair := by
  have hexhausted : Exhausted g'.next g'.Blocked 4 ([], pair) ↔ Exhausted g.next g.Blocked 4 ([], pair) := by
    rw [h.blocked]
    constructor
    · exact fun hex => ⟨fun c hc => hex.short c ((chain_perm h.next).mpr hc),
        fun c hc => hex.clear c ((chain_perm h.next).mpr hc)⟩
    · exact fun hex => ⟨fun c hc => hex.short c ((chain_perm h.next).mp hc),
        fun c hc => hex.clear c ((chain_perm h.next).mp hc)⟩
  rw [Explorable, Explorable, hexhausted, (walk_perm h.next).length_eq]

lemma SameExports.declared (pair : String × String) : g'.Declared pair = g.Declared pair := by
  funext target hops
  rw [Declared, Declared, h.declares]
  simp only [chain_perm h.next]

end Order
end ImportGraph

open ImportGraph

/-- **An exported name stands for one declaration.**  It is given exactly where everything can be seen and
all chains of re-exports lead to this declaration, with the least number of hops; and in whatever order the
stars are listed. -/
theorem exportedTarget_exact (g : ImportGraph) (file name : String) :
    (∀ f n d, g.exportedTarget file name = some (f, n, d) ↔
      g.Explorable (file, name) ∧ ∃ line,
        (∀ target hops, g.Declared (file, name) target hops → target = ⟨f, n, line⟩) ∧
        IsLeast {hops | g.Declared (file, name) ⟨f, n, line⟩ hops} d) ∧
    ∀ g', SameExports g g' → g'.exportedTarget file name = g.exportedTarget file name := by
  have hexact : ∀ (g : ImportGraph) f n d, g.exportedTarget file name = some (f, n, d) ↔
      g.Explorable (file, name) ∧ ∃ line,
        (∀ target hops, g.Declared (file, name) target hops → target = ⟨f, n, line⟩) ∧
        IsLeast {hops | g.Declared (file, name) ⟨f, n, line⟩ hops} d := by
    intro g f n d
    rw [exportedTarget, Option.map_eq_some_iff]
    constructor
    · rintro ⟨⟨⟨f', n', line⟩, d'⟩, h, heq⟩
      obtain ⟨rfl, rfl, rfl⟩ : f' = f ∧ n' = n ∧ d' = d := by simpa using heq
      obtain ⟨hexplorable, hdeclared⟩ := exportedTargetWithDeclaration_eq_some.mp h
      exact ⟨hexplorable, line, hdeclared⟩
    · rintro ⟨hexplorable, line, hdeclared⟩
      exact ⟨(⟨f, n, line⟩, d), exportedTargetWithDeclaration_eq_some.mpr ⟨hexplorable, hdeclared⟩, rfl⟩
  refine ⟨hexact g, fun g' h => Option.ext fun ⟨f, n, d⟩ => ?_⟩
  rw [hexact g', hexact g, h.explorable, h.declared]

/-- A barrel that passes on two modules, which both pass on one function. -/
def diamond (stars : List String) : ImportGraph where
  exportAliases file name :=
    if name ≠ "helper" then none
    else if file = "a.js" ∨ file = "b.js" then some ("helper", some "lib.js")
    else if file = "lib.js" then some ("helper", none)
    else none
  literalExportLines _ _ := none
  starExports file := if file = "index.js" then stars else []
  unresolvedExports _ := []
  incompleteStars := []

theorem exportedTarget_exact_diamond :
    (diamond ["b.js", "a.js"]).exportedTarget "index.js" "helper" = some ("lib.js", "helper", 2) := by
  have hsame : SameExports (diamond ["a.js", "b.js"]) (diamond ["b.js", "a.js"]) := by
    refine ⟨rfl, rfl, fun file => ?_, rfl, rfl⟩
    simp only [diamond]
    split_ifs
    · exact List.Perm.swap _ _ _
    · exact .refl _
  rw [(exportedTarget_exact (diamond ["a.js", "b.js"]) "index.js" "helper").2 _ hsame]
  decide

/-- A module that exports a function under one name and a method of a literal under another, both with one
name of its own. -/
def twoRuns : ImportGraph where
  exportAliases file name :=
    if file = "a.js" ∧ name = "x" then some ("run", some "lib.js")
    else if file = "b.js" ∧ name = "x" then some ("go", some "lib.js")
    else if file = "lib.js" ∧ (name = "run" ∨ name = "go") then some ("run", none)
    else none
  literalExportLines file name := if file = "lib.js" ∧ name = "run" then some 5 else none
  starExports file := if file = "index.js" then ["a.js", "b.js"] else []
  unresolvedExports _ := []
  incompleteStars := []

/-- The file and the name alone do not tell the two apart, and there is no answer. -/
theorem exportedTarget_twoRuns :
    ¬ (twoRuns.exportedTarget "index.js" "x" = some ("lib.js", "run", 2) ↔
      twoRuns.Explorable ("index.js", "x") ∧
        (∀ target hops, twoRuns.Declared ("index.js", "x") target hops →
          (target.file, target.name) = ("lib.js", "run")) ∧
        IsLeast {hops | ∃ line, twoRuns.Declared ("index.js", "x") ⟨"lib.js", "run", line⟩ hops} 2) := by
  have hnone : twoRuns.exportedTarget "index.js" "x" = none := by decide
  have hexplorable : twoRuns.Explorable ("index.js", "x") := by
    refine ⟨?_, by decide⟩
    simp [exhausted_succ, twoRuns, next, Blocked]
  have hfindings : (walk twoRuns.next 4 [] ("index.js", "x")).filterMap twoRuns.finding =
      [(⟨"lib.js", "run", some 5⟩, 2), (⟨"lib.js", "run", none⟩, 2)] := by decide
  have hdeclared : ∀ target hops, twoRuns.Declared ("index.js", "x") target hops →
      (target.file, target.name) = ("lib.js", "run") ∧ hops = 2 := by
    intro target hops h
    rw [← mem_findings hexplorable, hfindings] at h
    simp only [List.mem_cons, List.not_mem_nil, or_false, Prod.mk.injEq] at h
    obtain ⟨rfl, rfl⟩ | ⟨rfl, rfl⟩ := h
    · exact ⟨rfl, rfl⟩
    · exact ⟨rfl, rfl⟩
  have hleast : IsLeast
      {hops | ∃ line, twoRuns.Declared ("index.js", "x") ⟨"lib.js", "run", line⟩ hops} 2 := by
    refine ⟨⟨none, (mem_findings hexplorable).mp ?_⟩, ?_⟩
    · rw [hfindings]
      exact List.mem_cons_of_mem _ List.mem_cons_self
    · rintro hops ⟨line, h⟩
      rw [(hdeclared _ _ h).2]
  intro h
  exact absurd (h.mpr ⟨hexplorable, fun target hops h => (hdeclared target hops h).1, hleast⟩)
    (by rw [hnone]; simp)

end ExportTargets
end NestWeaver
