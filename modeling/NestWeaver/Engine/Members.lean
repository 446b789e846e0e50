import NestWeaver.Engine.AtomicChanges
import NestWeaver.Framework.Accumulate
import Mathlib.Data.List.MinMax

/-!
# Members of containers

`file_member_of_edges` of `crates/nestweaver-engine/src/index.rs`: the edges from the symbols of a file to the
classes, interfaces, enums and traits that bear the names of their parents.

Of the containers of one name the smallest that encloses the symbol is taken, and where none does the one
declared last.  The search for an enclosing container leaves the symbol itself out; what it falls back on does
not, so a container that bears the name of its own parent can become a member of itself
(`FallsBackOnItself`).
-/

set_option linter.all false

namespace NestWeaver

inductive CrossRepoLinkType
  | sharedImport | contractMatch
  deriving DecidableEq, Repr

structure EdgeEvidence where
  kind : String
  weight : ℚ
  note : Option String
  deriving DecidableEq, Repr

structure ResolvedEdge where
  sourceUid : String
  targetUid : String
  edgeType : EdgeType
  confidence : ℚ
  linkType : Option CrossRepoLinkType
  evidence : List EdgeEvidence
  deriving DecidableEq, Repr

namespace Members

/-! ## The edges -/

/-- A symbol with its place in the file's list, which tells it from an equal one. -/
abbrev Placed := RawSymbol × ℕ

def placed (symbols : List RawSymbol) : List Placed := symbols.zipIdx

def isContainer (s : RawSymbol) : Bool :=
  s.kind = .class ∨ s.kind = .interface ∨ s.kind = .enum ∨ s.kind = .trait

def containers (symbols : List RawSymbol) : List Placed :=
  (placed symbols).filter fun c => isContainer c.1

/-- The containers of each name, in the order of their declarations. -/
def containersByName (symbols : List RawSymbol) : List (String × List Placed) :=
  accumulate Prod.fst (fun c : Placed => c.1.name) (fun c => (c.1.name, [c]))
    (fun c entry => (entry.1, entry.2 ++ [c])) (containers symbols)

def containersNamed (symbols : List RawSymbol) (name : String) : Option (List Placed) :=
  ((containersByName symbols).find? fun entry => entry.1 = name).map Prod.snd

def Encloses (c s : Placed) : Prop :=
  c.1.startLine ≤ s.1.startLine ∧ s.1.startLine ≤ c.1.endLine

instance (c s : Placed) : Decidable (Encloses c s) :=
  inferInstanceAs (Decidable (c.1.startLine ≤ s.1.startLine ∧ s.1.startLine ≤ c.1.endLine))

/-- The difference of the lines, as the machine takes it. -/
def span (c : Placed) : UInt32 := c.1.endLine - c.1.startLine

def parentOf (symbols : List RawSymbol) (s : Placed) : Option Placed := do
  let named ← containersNamed symbols (← s.1.parentName)
  ((named.filter fun c => Encloses c s ∧ c.2 ≠ s.2).argmin fun c => (span c).toNat).or named.getLast?

section Edges

variable (truncatedHash : String → String) (rUid relPath : String)

def memberOfEdge (s parent : Placed) : ResolvedEdge where
  sourceUid := Uid.symbolUid truncatedHash rUid relPath s.1.name s.1.startLine
  targetUid := Uid.symbolUid truncatedHash rUid relPath parent.1.name parent.1.startLine
  edgeType := .memberOf
  confidence := 1
  linkType := none
  evidence := []

def fileMemberOfEdges (symbols : List RawSymbol) : List ResolvedEdge :=
  (placed symbols).filterMap fun s =>
    (parentOf symbols s).map (memberOfEdge truncatedHash rUid relPath s)

end Edges

/-! ## What an edge should name -/

/-- The container bears the name of the symbol's parent. -/
def Names (symbols : List RawSymbol) (s c : Placed) : Prop :=
  c ∈ containers symbols ∧ s.1.parentName = some c.1.name

/-- The same, and it is not the symbol. -/
def NamesOther (symbols : List RawSymbol) (s c : Placed) : Prop :=
  Names symbols s c ∧ c.2 ≠ s.2

/-- The number of lines after the first. -/
def lines (c : Placed) : ℕ := c.1.endLine.toNat - c.1.startLine.toNat

/-- The target is the enclosing container of the symbol. -/
structure NamesContainer (symbols : List RawSymbol) (s : Placed) (target : Option Placed) : Prop where
  exists_iff : target.isSome ↔ ∃ c, NamesOther symbols s c
  named : ∀ t ∈ target, Names symbols s t
  smallest : ∀ t ∈ target, ∀ c, NamesOther symbols s c → Encloses c s →
    Encloses t s ∧ lines t ≤ lines c
  last : ∀ t ∈ target, (∀ c, NamesOther symbols s c → ¬Encloses c s) →
    ∀ c, Names symbols s c → c.2 ≤ t.2
  notSelf : ∀ t ∈ target, t.2 ≠ s.2

/-- The symbol is a container that its parent is named after, the last one, and no other encloses it. -/
def FallsBackOnItself (symbols : List RawSymbol) (s : Placed) : Prop :=
  Names symbols s s ∧ ∀ c, NamesOther symbols s c → ¬Encloses c s ∧ c.2 < s.2

/-- At most one edge for each symbol, to its enclosing container. -/
def MembersNamed (truncatedHash : String → String) (rUid relPath : String) (symbols : List RawSymbol)
    (edges : List ResolvedEdge) : Prop :=
  ∃ target : Placed → Option Placed,
    (∀ s ∈ placed symbols, NamesContainer symbols s (target s)) ∧
      edges = (placed symbols).filterMap fun s =>
        (target s).map (memberOfEdge truncatedHash rUid relPath s)

variable {symbols : List RawSymbol} {s c t : Placed} {target : Option Placed}

/-! ## Containers of one name -/

/-- The containers that bear the name of the symbol's parent. -/
def namedBy (symbols : List RawSymbol) (s : Placed) : List Placed :=
  (containers symbols).filter fun c => s.1.parentName = some c.1.name

lemma mem_namedBy : c ∈ namedBy symbols s ↔ Names symbols s c := by
  rw [namedBy, List.mem_filter, decide_eq_true_eq]
  exact Iff.rfl

lemma snd_groupEntry (cs : List Placed) :
    (groupEntry (fun c : Placed => (c.1.name, [c])) (fun c entry => (entry.1, entry.2 ++ [c])) cs).map
      Prod.snd = if cs = [] then none else some cs := by
  have hfold : ∀ (cs : List Placed) (entry : String × List Placed),
      (cs.foldl (fun entry c => (entry.1, entry.2 ++ [c])) entry).2 = entry.2 ++ cs := by
    intro cs
    induction cs with
    | nil => simp
    | cons c cs ih => simp [ih]
  cases cs with
  | nil => rfl
  | cons c cs => simp [groupEntry, hfold]

lemma containersNamed_eq (name : String) :
    containersNamed symbols name =
      let named := (containers symbols).filter fun c => c.1.name = name
      if named = [] then none else some named := by
  have hfind : ((containersByName symbols).find? fun entry => entry.1 = name) =
      groupEntry (fun c : Placed => (c.1.name, [c])) (fun c entry => (entry.1, entry.2 ++ [c]))
        ((containers symbols).filter fun c => c.1.name = name) := by
    apply find?_accumulate
    · exact fun _ => rfl
    · exact fun _ _ h => h
  rw [containersNamed, hfind, snd_groupEntry]

/-- The map is only a way to the containers of one name. -/
lemma parentOf_eq : parentOf symbols s =
    (((namedBy symbols s).filter fun c => Encloses c s ∧ c.2 ≠ s.2).argmin fun c => (span c).toNat).or
      (namedBy symbols s).getLast? := by
  rw [parentOf, namedBy]
  cases hparent : s.1.parentName with
  | none => simp
  | some name =>
    have hfilter : ((containers symbols).filter fun c => some name = some c.1.name) =
        (containers symbols).filter fun c => c.1.name = name := by
      refine List.filter_congr fun c _ => decide_eq_decide.mpr ?_
      rw [Option.some_inj, eq_comm]
    rw [hfilter]
    simp only [Option.bind_eq_bind, Option.bind_some, containersNamed_eq]
    split_ifs with hnamed
    · rw [hnamed]
      rfl
    · rfl

/-! ## Places -/

lemma Names.mem (h : Names symbols s c) : c ∈ placed symbols := List.mem_of_mem_filter h.1

lemma eq_of_place (hs : s ∈ placed symbols) (ht : t ∈ placed symbols) (h : t.2 = s.2) : t = s := by
  rw [placed, List.mem_zipIdx_iff_getElem?] at hs ht
  rw [h, hs, Option.some_inj] at ht
  exact Prod.ext ht.symm h

lemma pairwise_namedBy : (namedBy symbols s).Pairwise fun c c' => c.2 < c'.2 := by
  have hplaces : ((placed symbols).map Prod.snd).Pairwise (· < ·) := by
    rw [placed, List.zipIdx_map_snd]
    exact List.pairwise_lt_range'
  exact ((List.pairwise_map.mp hplaces).filter _).filter _

/-- The last one comes after all others. -/
lemma le_of_mem_getLast? (h : t ∈ (namedBy symbols s).getLast?) :
    Names symbols s t ∧ ∀ c, Names symbols s c → c.2 ≤ t.2 := by
  have hlast : (namedBy symbols s).dropLast ++ [t] = namedBy symbols s :=
    List.dropLast_append_getLast? t h
  have hpairwise : (namedBy symbols s).Pairwise fun c c' => c.2 < c'.2 := pairwise_namedBy
  rw [← hlast, List.pairwise_append] at hpairwise
  have hmem : ∀ c, Names symbols s c ↔ c ∈ (namedBy symbols s).dropLast ++ [t] := by
    intro c
    rw [hlast, mem_namedBy]
  refine ⟨(hmem t).mpr (by simp), fun c hc => ?_⟩
  obtain hfront | hc := List.mem_append.mp ((hmem c).mp hc)
  · exact (hpairwise.2.2 c hfront t List.mem_cons_self).le
  · rw [List.mem_singleton.mp hc]

/-- No line difference wraps around. -/
lemma span_toNat (h : Encloses c s) : (span c).toNat = lines c :=
  UInt32.toNat_sub_of_le _ _ (UInt32.le_trans h.1 h.2)

/-! ## The parent -/

lemma mem_candidates :
    c ∈ (namedBy symbols s).filter (fun c => Encloses c s ∧ c.2 ≠ s.2) ↔
      NamesOther symbols s c ∧ Encloses c s := by
  rw [List.mem_filter, mem_namedBy, decide_eq_true_eq, NamesOther, and_comm (a := Encloses c s), and_assoc]

/-- Where a container encloses the symbol, the smallest one is taken. -/
lemma parentOf_smallest (hc : NamesOther symbols s c) (henclosed : Encloses c s) :
    ∃ t, parentOf symbols s = some t ∧ NamesOther symbols s t ∧ Encloses t s ∧
      ∀ c, NamesOther symbols s c → Encloses c s → lines t ≤ lines c := by
  set candidates := (namedBy symbols s).filter fun c => Encloses c s ∧ c.2 ≠ s.2 with hcandidates
  have hmem : c ∈ candidates := mem_candidates.mpr ⟨hc, henclosed⟩
  cases hmin : candidates.argmin fun c => (span c).toNat with
  | none =>
    rw [List.argmin_eq_none.mp hmin] at hmem
    cases hmem
  | some t =>
    obtain ⟨ht, htenclosed⟩ := mem_candidates.mp (List.argmin_mem hmin)
    refine ⟨t, by rw [parentOf_eq, ← hcandidates, hmin, Option.some_or], ht, htenclosed, ?_⟩
    intro c hc hcenclosed
    have hle : (span t).toNat ≤ (span c).toNat :=
      List.le_of_mem_argmin (f := fun c => (span c).toNat) (mem_candidates.mpr ⟨hc, hcenclosed⟩) hmin
    rwa [span_toNat htenclosed, span_toNat hcenclosed] at hle

/-- Where none does, the last one is. -/
lemma parentOf_last (hnone : ∀ c, NamesOther symbols s c → ¬Encloses c s) :
    parentOf symbols s = (namedBy symbols s).getLast? := by
  have hempty : (namedBy symbols s).filter (fun c => Encloses c s ∧ c.2 ≠ s.2) = [] := by
    refine List.eq_nil_iff_forall_not_mem.mpr fun c hc => ?_
    obtain ⟨hother, henclosed⟩ := mem_candidates.mp hc
    exact hnone c hother henclosed
  rw [parentOf_eq, hempty, List.argmin_nil, Option.none_or]

/-- What is fallen back on is another container. -/
lemma namesOther_of_last (hs : s ∈ placed symbols) (hself : ¬FallsBackOnItself symbols s)
    (hnone : ∀ c, NamesOther symbols s c → ¬Encloses c s) (ht : t ∈ (namedBy symbols s).getLast?) :
    NamesOther symbols s t := by
  obtain ⟨hnamed, hlast⟩ := le_of_mem_getLast? ht
  refine ⟨hnamed, fun hplace => hself ?_⟩
  obtain rfl := eq_of_place hs hnamed.mem hplace
  exact ⟨hnamed, fun c hc => ⟨hnone c hc, lt_of_le_of_ne (hlast c hc.1) hc.2⟩⟩

lemma namesContainer_parentOf (hs : s ∈ placed symbols) (hself : ¬FallsBackOnItself symbols s) :
    NamesContainer symbols s (parentOf symbols s) := by
  by_cases henclosed : ∃ c, NamesOther symbols s c ∧ Encloses c s
  · obtain ⟨c, hc, hcenclosed⟩ := henclosed
    obtain ⟨t, hparent, ht, htenclosed, hsmallest⟩ := parentOf_smallest hc hcenclosed
    rw [hparent]
    refine ⟨⟨fun _ => ⟨c, hc⟩, fun _ => rfl⟩, ?_, ?_, ?_, ?_⟩
    all_goals
      intro t' ht'
      obtain rfl := Option.some.inj ht'
    · exact ht.1
    · exact fun c hc hcenclosed => ⟨htenclosed, hsmallest c hc hcenclosed⟩
    · exact fun hnone => absurd hcenclosed (hnone c hc)
    · exact ht.2
  · have hnone : ∀ c, NamesOther symbols s c → ¬Encloses c s :=
      fun c hc hcenclosed => henclosed ⟨c, hc, hcenclosed⟩
    rw [parentOf_last hnone]
    refine ⟨⟨fun hsome => ?_, ?_⟩, ?_, ?_, ?_, ?_⟩
    · obtain ⟨t, ht⟩ := Option.isSome_iff_exists.mp hsome
      exact ⟨t, namesOther_of_last hs hself hnone ht⟩
    · rintro ⟨c, hc⟩
      rw [List.getLast?_isSome]
      exact List.ne_nil_of_mem (mem_namedBy.mpr hc.1)
    · exact fun t ht => (le_of_mem_getLast? ht).1
    · exact fun t ht c hc hcenclosed => absurd hcenclosed (hnone c hc)
    · exact fun t ht _ => (le_of_mem_getLast? ht).2
    · exact fun t ht => (namesOther_of_last hs hself hnone ht).2

/-- Such a symbol gets an edge, and should get none. -/
lemma isSome_of_fallsBackOnItself (hself : FallsBackOnItself symbols s) :
    (parentOf symbols s).isSome := by
  rw [parentOf_last fun c hc => (hself.2 c hc).1, List.getLast?_isSome]
  exact List.ne_nil_of_mem (mem_namedBy.mpr hself.1)

lemma eq_none_of_fallsBackOnItself (hself : FallsBackOnItself symbols s)
    (h : NamesContainer symbols s target) : target = none := by
  refine Option.eq_none_iff_forall_not_mem.mpr fun t ht => ?_
  have hother : NamesOther symbols s t := ⟨h.named t ht, h.notSelf t ht⟩
  have hlast : s.2 ≤ t.2 := h.last t ht (fun c hc => (hself.2 c hc).1) s hself.1
  exact absurd (hself.2 t hother).2 hlast.not_gt

lemma NamesContainer.isSome_parentOf (hs : s ∈ placed symbols) (h : NamesContainer symbols s target)
    (hsome : target.isSome) : (parentOf symbols s).isSome := by
  by_cases hself : FallsBackOnItself symbols s
  · exact isSome_of_fallsBackOnItself hself
  · exact (namesContainer_parentOf hs hself).exists_iff.mpr (h.exists_iff.mp hsome)

/-- A class that records its own name as that of its parent. -/
def ownParent : RawSymbol where
  name := "A"
  kind := .class
  startLine := 1
  endLine := 3
  signature := "class A"
  contentHash := ""
  isEntryPoint := false
  entryPointKind := none
  visibility := .public
  typeInfo := none
  parentName := some "A"
  scopeChain := none

end Members
end NestWeaver
