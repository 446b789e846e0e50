import NestWeaver.Engine.AtomicChangesConservation

/-!
# When a diff depends on the order

The diff visits hash maps, which keep of each canonical id the last symbol, and takes for each symbol that
is left the first rename it meets.  It is the same for every order of the lists and of the maps exactly when
no id has symbols that are compared differently and the renames leave no choice (`Unambiguous`).
-/

set_option linter.all false

namespace NestWeaver
namespace AtomicChanges

/-! ## The order of a run -/

section Statement

variable (file : FileId) (oldSymbols newSymbols : List RawSymbol)

/-- The two lists in some order, and their maps in some order. -/
structure Run where
  old : List RawSymbol
  new : List RawSymbol
  old_perm : old.Perm oldSymbols
  new_perm : new.Perm newSymbols
  oldMap : SymbolMap file old
  newMap : SymbolMap file new

def Run.changes {file : FileId} {oldSymbols newSymbols : List RawSymbol}
    (r : Run file oldSymbols newSymbols) : List AtomicChange :=
  diffSymbols file r.old r.new r.oldMap r.newMap

/-- Every run reports the same changes, each as often. -/
def OrderIndependent : Prop :=
  ∀ r r' : Run file oldSymbols newSymbols, r.changes.Perm r'.changes

/-- What the first two symbols differ in, the other two differ in. -/
structure ComparesAlike (old new old' new' : RawSymbol) : Prop where
  signatures : old.signature ≠ new.signature →
    old'.signature = old.signature ∧ new'.signature = new.signature ∧ old'.name = old.name
  gains : old.visibility ≠ .public → new.visibility = .public →
    old'.visibility ≠ .public ∧ new'.visibility = .public ∧ new'.name = new.name
  loses : old.visibility = .public → new.visibility ≠ .public →
    old'.visibility = .public ∧ new'.visibility ≠ .public ∧ old'.name = old.name

/-- One could be a rename of the other: another name, and otherwise alike. -/
def Compatible (old new : RawSymbol) : Prop :=
  new.kind = old.kind ∧ new.name ≠ old.name ∧ signaturesSimilar old.signature new.signature = true

/-- A symbol of the first list whose id the second list does not have. -/
def OnlyIn (symbols others : List RawSymbol) (s : RawSymbol) : Prop :=
  s ∈ symbolsOf symbols ∧
    ∀ s' ∈ symbolsOf others, rawSymbolCanonicalId file s' ≠ rawSymbolCanonicalId file s

/-- Whichever symbols of an id are compared, they compare alike; and among the symbols that only one side
has, whether one is a rename of the other depends on their ids, and leaves each of them one partner. -/
structure Unambiguous : Prop where
  compared : ∀ old ∈ symbolsOf oldSymbols, ∀ new ∈ symbolsOf newSymbols,
    ∀ old' ∈ symbolsOf oldSymbols, ∀ new' ∈ symbolsOf newSymbols,
      rawSymbolCanonicalId file new = rawSymbolCanonicalId file old →
      rawSymbolCanonicalId file old' = rawSymbolCanonicalId file old →
      rawSymbolCanonicalId file new' = rawSymbolCanonicalId file old → ComparesAlike old new old' new'
  renamed : ∀ old new old' new', OnlyIn file oldSymbols newSymbols old →
    OnlyIn file newSymbols oldSymbols new → old' ∈ symbolsOf oldSymbols → new' ∈ symbolsOf newSymbols →
      rawSymbolCanonicalId file old' = rawSymbolCanonicalId file old →
      rawSymbolCanonicalId file new' = rawSymbolCanonicalId file new → Compatible old new →
      Compatible old' new' ∧ old'.name = old.name ∧ new'.name = new.name
  one_new : ∀ old new new', OnlyIn file oldSymbols newSymbols old →
    OnlyIn file newSymbols oldSymbols new → OnlyIn file newSymbols oldSymbols new' →
      Compatible old new → Compatible old new' →
      rawSymbolCanonicalId file new' = rawSymbolCanonicalId file new
  one_old : ∀ old old' new, OnlyIn file oldSymbols newSymbols old →
    OnlyIn file oldSymbols newSymbols old' → OnlyIn file newSymbols oldSymbols new →
      Compatible old new → Compatible old' new →
      rawSymbolCanonicalId file old' = rawSymbolCanonicalId file old

end Statement

variable {file : FileId} {oldSymbols newSymbols : List RawSymbol}

lemma isRename_iff {old : RawSymbol} {entry : String × RawSymbol} :
    isRename old entry = true ↔ Compatible old entry.2 := by
  rw [isRename, Compatible, decide_eq_true_eq]

namespace Run

variable (r : Run file oldSymbols newSymbols)

lemma mem_old {s : RawSymbol} : s ∈ symbolsOf r.old ↔ s ∈ symbolsOf oldSymbols :=
  (r.old_perm.filter _).mem_iff

lemma mem_new {s : RawSymbol} : s ∈ symbolsOf r.new ↔ s ∈ symbolsOf newSymbols :=
  (r.new_perm.filter _).mem_iff

lemma lastSymbol_old_eq_none {cid : String} : lastSymbol file r.old cid = none ↔
    ∀ s ∈ symbolsOf oldSymbols, rawSymbolCanonicalId file s ≠ cid := by
  rw [lastSymbol, lastOf_eq_none]
  simp only [r.mem_old]

lemma lastSymbol_new_eq_none {cid : String} : lastSymbol file r.new cid = none ↔
    ∀ s ∈ symbolsOf newSymbols, rawSymbolCanonicalId file s ≠ cid := by
  rw [lastSymbol, lastOf_eq_none]
  simp only [r.mem_new]

/-- The renames of a run are of symbols that only one side has. -/
lemma onlyIn_of_renamed {e : (String × RawSymbol) × (String × RawSymbol)}
    (he : e ∈ renamesOf r.oldMap r.newMap) :
    (OnlyIn file oldSymbols newSymbols e.1.2 ∧ rawSymbolCanonicalId file e.1.2 = e.1.1) ∧
      (OnlyIn file newSymbols oldSymbols e.2.2 ∧ rawSymbolCanonicalId file e.2.2 = e.2.1) ∧
      Compatible e.1.2 e.2.2 := by
  obtain ⟨⟨hold, hnotNew⟩, ⟨hnew, hnotOld⟩, hrename⟩ := mem_renamesOf he
  obtain ⟨holdMem, holdKey⟩ := mem_of_lastOf hold
  obtain ⟨hnewMem, hnewKey⟩ := mem_of_lastOf hnew
  refine ⟨⟨⟨r.mem_old.mp holdMem, ?_⟩, holdKey⟩, ⟨⟨r.mem_new.mp hnewMem, ?_⟩, hnewKey⟩,
    isRename_iff.mp hrename⟩
  · rw [holdKey]
    exact r.lastSymbol_new_eq_none.mp hnotNew
  · rw [hnewKey]
    exact r.lastSymbol_old_eq_none.mp hnotOld

end Run

/-- Any two symbols are in some run those that are kept, and visited first. -/
lemma exists_run (file : FileId) {old new : RawSymbol} (hold : old ∈ symbolsOf oldSymbols)
    (hnew : new ∈ symbolsOf newSymbols) : ∃ r : Run file oldSymbols newSymbols,
      (∃ rest, r.oldMap.entries = (rawSymbolCanonicalId file old, old) :: rest) ∧
      ∃ rest, r.newMap.entries = (rawSymbolCanonicalId file new, new) :: rest := by
  have hfront : ∀ {symbols : List RawSymbol} {s : RawSymbol}, s ∈ symbolsOf symbols →
      ∃ symbols' : List RawSymbol, symbols'.Perm symbols ∧ ∃ m : SymbolMap file symbols',
        ∃ rest, m.entries = (rawSymbolCanonicalId file s, s) :: rest := by
    intro symbols s hs
    obtain ⟨hmem, hkeep⟩ := List.mem_filter.mp hs
    have hperm : (symbols.erase s ++ [s]).Perm symbols :=
      List.perm_append_comm.trans (List.perm_cons_erase hmem).symm
    have hlast : lastSymbol file (symbols.erase s ++ [s]) (rawSymbolCanonicalId file s) = some s := by
      have hfilter : symbolsOf (symbols.erase s ++ [s]) = symbolsOf (symbols.erase s) ++ [s] := by
        rw [symbolsOf, List.filter_append, List.filter_singleton, hkeep]
        rfl
      rw [lastSymbol, hfilter, lastOf_concat]
    obtain ⟨m, rest, hm⟩ := (MapOrder.collect _ _ :
      SymbolMap file (symbols.erase s ++ [s])).exists_front ((MapOrder.mem_entries _ _ _).mpr hlast)
    exact ⟨_, hperm, m, rest, hm⟩
  obtain ⟨olds, hold, oldMap, oldRest, holdMap⟩ := hfront hold
  obtain ⟨news, hnew, newMap, newRest, hnewMap⟩ := hfront hnew
  exact ⟨⟨olds, news, hold, hnew, oldMap, newMap⟩, ⟨oldRest, holdMap⟩, newRest, hnewMap⟩

/-! ## What a run reports -/

/-- The id of a change that comes of comparing two symbols. -/
def comparedId : AtomicChange → Option String
  | .signatureChanged canonicalId .. => some canonicalId
  | .exportAdded canonicalId .. => some canonicalId
  | .exportRemoved canonicalId .. => some canonicalId
  | _ => none

lemma comparedId_of_mem {cid : String} {old new : RawSymbol} {c : AtomicChange}
    (hc : c ∈ matchedChanges file cid old new) : comparedId c = some cid := by
  rw [matchedChanges] at hc
  split_ifs at hc <;> simp at hc <;> rcases hc with rfl | rfl <;> rfl

lemma signatureChanged_mem {cid cid' name oldSignature newSignature path : String} {old new : RawSymbol} :
    .signatureChanged cid' name oldSignature newSignature path ∈ matchedChanges file cid old new ↔
      old.signature ≠ new.signature ∧ cid' = cid ∧ name = old.name ∧ oldSignature = old.signature ∧
        newSignature = new.signature ∧ path = file.filePath := by
  rw [matchedChanges]
  split_ifs <;> simp_all

lemma exportAdded_mem {cid cid' name path : String} {old new : RawSymbol} :
    .exportAdded cid' name path ∈ matchedChanges file cid old new ↔
      (old.visibility ≠ .public ∧ new.visibility = .public) ∧ cid' = cid ∧ name = new.name ∧
        path = file.filePath := by
  rw [matchedChanges]
  split_ifs <;> simp_all

lemma exportRemoved_mem {cid cid' name path : String} {old new : RawSymbol} :
    .exportRemoved cid' name path ∈ matchedChanges file cid old new ↔
      (old.visibility = .public ∧ new.visibility ≠ .public) ∧ cid' = cid ∧ name = old.name ∧
        path = file.filePath := by
  rw [matchedChanges]
  split_ifs <;> simp_all

/-- Symbols compare alike if the changes are those of the others. -/
lemma comparesAlike_of_matchedChanges (file : FileId) (cid : String) {old new old' new' : RawSymbol}
    (h : ∀ c ∈ matchedChanges file cid old new, c ∈ matchedChanges file cid old' new') :
    ComparesAlike old new old' new' := by
  refine ⟨fun hne => ?_, fun hold hnew => ?_, fun hold hnew => ?_⟩
  · obtain ⟨-, -, hname, hold, hnew, -⟩ :=
      signatureChanged_mem.mp (h _ (signatureChanged_mem.mpr ⟨hne, rfl, rfl, rfl, rfl, rfl⟩))
    exact ⟨hold.symm, hnew.symm, hname.symm⟩
  · obtain ⟨⟨hold, hnew⟩, -, hname, -⟩ :=
      exportAdded_mem.mp (h _ (exportAdded_mem.mpr ⟨⟨hold, hnew⟩, rfl, rfl, rfl⟩))
    exact ⟨hold, hnew, hname.symm⟩
  · obtain ⟨⟨hold, hnew⟩, -, hname, -⟩ :=
      exportRemoved_mem.mp (h _ (exportRemoved_mem.mpr ⟨⟨hold, hnew⟩, rfl, rfl, rfl⟩))
    exact ⟨hold, hnew, hname.symm⟩

lemma ComparesAlike.matchedChanges_eq {cid : String} {old new old' new' : RawSymbol}
    (h : ComparesAlike old new old' new') (h' : ComparesAlike old' new' old new) :
    matchedChanges file cid old new = matchedChanges file cid old' new' := by
  rw [matchedChanges, matchedChanges]
  congr 1
  · by_cases hne : old.signature ≠ new.signature
    · obtain ⟨hold, hnew, hname⟩ := h.signatures hne
      rw [hold, hnew, hname]
    · have hne' : ¬ old'.signature ≠ new'.signature := by
        intro hne'
        obtain ⟨hold, hnew, -⟩ := h'.signatures hne'
        exact hne (by rw [hold, hnew]; exact hne')
      rw [if_neg hne, if_neg hne']
  · by_cases hgains : old.visibility ≠ .public ∧ new.visibility = .public
    · obtain ⟨hold, hnew, hname⟩ := h.gains hgains.1 hgains.2
      rw [if_pos hgains, if_pos ⟨hold, hnew⟩, hname]
    · have hgains' : ¬ (old'.visibility ≠ .public ∧ new'.visibility = .public) := by
        rintro ⟨hold, hnew⟩
        obtain ⟨hold, hnew, -⟩ := h'.gains hold hnew
        exact hgains ⟨hold, hnew⟩
      rw [if_neg hgains, if_neg hgains']
      by_cases hloses : old.visibility = .public ∧ new.visibility ≠ .public
      · obtain ⟨hold, hnew, hname⟩ := h.loses hloses.1 hloses.2
        rw [if_pos hloses, if_pos ⟨hold, hnew⟩, hname]
      · have hloses' : ¬ (old'.visibility = .public ∧ new'.visibility ≠ .public) := by
          rintro ⟨hold, hnew⟩
          obtain ⟨hold, hnew, -⟩ := h'.loses hold hnew
          exact hloses ⟨hold, hnew⟩
        rw [if_neg hloses, if_neg hloses']

namespace Run

variable (r : Run file oldSymbols newSymbols)

/-- The changes of two symbols that both sides have. -/
lemma mem_changes_compared {c : AtomicChange} {cid : String} (hc : comparedId c = some cid) :
    c ∈ r.changes ↔ ∃ old new, lastSymbol file r.old cid = some old ∧
      lastSymbol file r.new cid = some new ∧ c ∈ matchedChanges file cid old new := by
  have hmatched : c ∈ r.changes ↔ c ∈ matchById file (lastSymbol file r.new) r.oldMap.entries := by
    rw [changes, diffSymbols_eq]
    simp only [List.mem_append, List.mem_map]
    constructor
    · rintro (((h | ⟨_, -, rfl⟩) | ⟨_, -, rfl⟩) | ⟨_, -, rfl⟩)
      · exact h
      · cases hc
      · cases hc
      · cases hc
    · exact fun h => .inl (.inl (.inl h))
  rw [hmatched, matchById, List.mem_flatMap]
  constructor
  · rintro ⟨⟨cid', old⟩, hentry, hmem⟩
    dsimp only at hmem
    cases hnew : lastSymbol file r.new cid' with
    | none => simp [hnew] at hmem
    | some new =>
      rw [hnew] at hmem
      obtain rfl : cid' = cid := Option.some_inj.mp ((comparedId_of_mem hmem).symm.trans hc)
      exact ⟨old, new, (r.oldMap.mem_entries _ _).mp hentry, hnew, hmem⟩
  · rintro ⟨old, new, hold, hnew, hmem⟩
    refine ⟨(cid, old), (r.oldMap.mem_entries _ _).mpr hold, ?_⟩
    dsimp only
    rw [hnew]
    exact hmem

lemma mem_changes_renamed {oldId oldName newName newId path : String} :
    .symbolRenamed oldId oldName newName newId path ∈ r.changes ↔
      .symbolRenamed oldId oldName newName newId path ∈
        (renamesOf r.oldMap r.newMap).map (renamedChange file) := by
  rw [changes, diffSymbols_eq]
  simp only [List.mem_append]
  constructor
  · rintro (((h | h) | h) | h)
    · obtain ⟨⟨cid, old⟩, -, h⟩ := List.mem_flatMap.mp h
      dsimp only at h
      cases hnew : lastSymbol file r.new cid with
      | none => simp [hnew] at h
      | some new =>
        rw [hnew] at h
        cases comparedId_of_mem h
    · exact h
    · obtain ⟨_, -, h⟩ := List.mem_map.mp h
      cases h
    · obtain ⟨_, -, h⟩ := List.mem_map.mp h
      cases h
  · exact fun h => .inl (.inl (.inr h))

/-- An old id is renamed once, and so is a new one. -/
lemma renamed_once {e e' : (String × RawSymbol) × (String × RawSymbol)}
    (he : e ∈ renamesOf r.oldMap r.newMap) (he' : e' ∈ renamesOf r.oldMap r.newMap)
    (h : e.1.1 = e'.1.1 ∨ e.2.1 = e'.2.1) : e = e' := by
  have hentries := r.oldMap.nodup.of_map.filter fun entry => (lastSymbol file r.new entry.1).isNone
  have hentries' := r.newMap.nodup.of_map.filter fun entry => (lastSymbol file r.old entry.1).isNone
  obtain h | h := h
  · have hfst : e.1 = e'.1 := r.oldMap.eq_of_key (List.mem_of_mem_filter (mem_greedy he).1)
      (List.mem_of_mem_filter (mem_greedy he').1) h
    exact List.inj_on_of_nodup_map (hentries.sublist greedy_fst_sublist) he he' hfst
  · have hsnd : e.2 = e'.2 := r.newMap.eq_of_key (List.mem_of_mem_filter (mem_greedy he).2.1)
      (List.mem_of_mem_filter (mem_greedy he').2.1) h
    have hsubperm : ((renamesOf r.oldMap r.newMap).map Prod.snd).Subperm _ := greedy_snd_subperm
    obtain ⟨l, hl, hsub⟩ := hsubperm
    have hnodup : ((renamesOf r.oldMap r.newMap).map Prod.snd).Nodup :=
      hl.nodup_iff.mp (hentries'.sublist hsub)
    exact List.inj_on_of_nodup_map hnodup he he' hsnd

end Run

/-! ## Where there is a choice -/

namespace Run

variable (r : Run file oldSymbols newSymbols) {old new : RawSymbol}

lemma lastSymbol_old_of_front {rest : List (String × RawSymbol)}
    (h : r.oldMap.entries = (rawSymbolCanonicalId file old, old) :: rest) :
    lastSymbol file r.old (rawSymbolCanonicalId file old) = some old :=
  (r.oldMap.mem_entries _ _).mp (h ▸ List.mem_cons_self)

lemma lastSymbol_new_of_front {rest : List (String × RawSymbol)}
    (h : r.newMap.entries = (rawSymbolCanonicalId file new, new) :: rest) :
    lastSymbol file r.new (rawSymbolCanonicalId file new) = some new :=
  (r.newMap.mem_entries _ _).mp (h ▸ List.mem_cons_self)

/-- Symbols that are visited first are renamed if they are compatible. -/
lemma renamed_of_front {oldRest newRest : List (String × RawSymbol)}
    (hold : r.oldMap.entries = (rawSymbolCanonicalId file old, old) :: oldRest)
    (hnew : r.newMap.entries = (rawSymbolCanonicalId file new, new) :: newRest)
    (honlyOld : OnlyIn file oldSymbols newSymbols old) (honlyNew : OnlyIn file newSymbols oldSymbols new)
    (hcompatible : Compatible old new) :
    ((rawSymbolCanonicalId file old, old), (rawSymbolCanonicalId file new, new)) ∈
      renamesOf r.oldMap r.newMap := by
  have hnotNew := r.lastSymbol_new_eq_none.mpr honlyOld.2
  have hnotOld := r.lastSymbol_old_eq_none.mpr honlyNew.2
  rw [renamesOf, hold, hnew, List.filter_cons_of_pos (by rw [hnotNew]; rfl),
    List.filter_cons_of_pos (by rw [hnotOld]; rfl)]
  exact greedy_first (isRename_iff.mpr hcompatible)

lemma renamed_change_mem {e : (String × RawSymbol) × (String × RawSymbol)}
    (he : e ∈ renamesOf r.oldMap r.newMap) : renamedChange file e ∈ r.changes := by
  rw [renamedChange, mem_changes_renamed]
  exact List.mem_map.mpr ⟨e, he, rfl⟩

/-- A rename that another run reports is one of this run, with the symbols that it keeps. -/
lemma renamed_of_change (r' : Run file oldSymbols newSymbols) (h : r'.changes.Perm r.changes)
    {e : (String × RawSymbol) × (String × RawSymbol)} (he : e ∈ renamesOf r'.oldMap r'.newMap) :
    ∃ e' ∈ renamesOf r.oldMap r.newMap, e'.1.1 = e.1.1 ∧ e'.1.2.name = e.1.2.name ∧
      e'.2.2.name = e.2.2.name ∧ e'.2.1 = e.2.1 := by
  have hmem := h.mem_iff.mp (r'.renamed_change_mem he)
  rw [renamedChange, mem_changes_renamed] at hmem
  obtain ⟨e', he', heq⟩ := List.mem_map.mp hmem
  simp only [renamedChange, AtomicChange.symbolRenamed.injEq] at heq
  exact ⟨e', he', heq.1, heq.2.1, heq.2.2.1, heq.2.2.2.1⟩

end Run

lemma unambiguous_of_orderIndependent (h : OrderIndependent file oldSymbols newSymbols) :
    Unambiguous file oldSymbols newSymbols := by
  refine ⟨?_, ?_, ?_, ?_⟩
  · -- two runs that keep these symbols
    intro old hold new hnew old' hold' new' hnew' hid hid' hnewId'
    obtain ⟨r, ⟨_, holdMap⟩, _, hnewMap⟩ := exists_run file hold hnew
    obtain ⟨r', ⟨_, holdMap'⟩, _, hnewMap'⟩ := exists_run file hold' hnew'
    refine comparesAlike_of_matchedChanges file (rawSymbolCanonicalId file old) fun c hc => ?_
    have hcompared := comparedId_of_mem hc
    have hlastNew := r.lastSymbol_new_of_front hnewMap
    rw [hid] at hlastNew
    have hmem := (r.mem_changes_compared hcompared).mpr
      ⟨old, new, r.lastSymbol_old_of_front holdMap, hlastNew, hc⟩
    obtain ⟨old'', new'', hlast, hlast', hc'⟩ :=
      (r'.mem_changes_compared hcompared).mp ((h r r').mem_iff.mp hmem)
    have hold'' := r'.lastSymbol_old_of_front holdMap'
    have hnew'' := r'.lastSymbol_new_of_front hnewMap'
    rw [hid', hlast, Option.some_inj] at hold''
    rw [hnewId', hlast', Option.some_inj] at hnew''
    rw [← hold'', ← hnew'']
    exact hc'
  · intro old new old' new' honlyOld honlyNew hold' hnew' holdId hnewId hcompatible
    obtain ⟨r, ⟨_, holdMap⟩, _, hnewMap⟩ := exists_run file honlyOld.1 honlyNew.1
    obtain ⟨r', ⟨_, holdMap'⟩, _, hnewMap'⟩ := exists_run file hold' hnew'
    have hrenamed := r.renamed_of_front holdMap hnewMap honlyOld honlyNew hcompatible
    obtain ⟨e, he, hfst, holdName, hnewName, hsnd⟩ := r'.renamed_of_change r (h r r') hrenamed
    dsimp only at hfst holdName hnewName hsnd
    obtain ⟨⟨hlast, -⟩, ⟨hlast', -⟩, hrename⟩ := mem_renamesOf he
    have hkept := r'.lastSymbol_old_of_front holdMap'
    have hkept' := r'.lastSymbol_new_of_front hnewMap'
    rw [holdId, ← hfst, hlast, Option.some_inj] at hkept
    rw [hnewId, ← hsnd, hlast', Option.some_inj] at hkept'
    rw [hkept] at holdName hrename
    rw [hkept'] at hnewName
    have hcompatible' := isRename_iff.mp hrename
    rw [hkept'] at hcompatible'
    exact ⟨hcompatible', holdName, hnewName⟩
  · intro old new new' honlyOld honlyNew honlyNew' hcompatible hcompatible'
    obtain ⟨r, ⟨_, holdMap⟩, _, hnewMap⟩ := exists_run file honlyOld.1 honlyNew.1
    obtain ⟨r', ⟨_, holdMap'⟩, _, hnewMap'⟩ := exists_run file honlyOld.1 honlyNew'.1
    have hrenamed := r.renamed_of_front holdMap hnewMap honlyOld honlyNew hcompatible
    have hrenamed' := r'.renamed_of_front holdMap' hnewMap' honlyOld honlyNew' hcompatible'
    obtain ⟨e, he, hfst, -, -, hsnd⟩ := r.renamed_of_change r' (h r' r) hrenamed'
    dsimp only at hfst hsnd
    rw [← hsnd, r.renamed_once he hrenamed (.inl hfst)]
  · intro old old' new honlyOld honlyOld' honlyNew hcompatible hcompatible'
    obtain ⟨r, ⟨_, holdMap⟩, _, hnewMap⟩ := exists_run file honlyOld.1 honlyNew.1
    obtain ⟨r', ⟨_, holdMap'⟩, _, hnewMap'⟩ := exists_run file honlyOld'.1 honlyNew.1
    have hrenamed := r.renamed_of_front holdMap hnewMap honlyOld honlyNew hcompatible
    have hrenamed' := r'.renamed_of_front holdMap' hnewMap' honlyOld' honlyNew hcompatible'
    obtain ⟨e, he, hfst, -, -, hsnd⟩ := r.renamed_of_change r' (h r' r) hrenamed'
    dsimp only at hfst hsnd
    rw [← hfst, r.renamed_once he hrenamed (.inr hsnd)]

/-! ## Where there is none -/

namespace Run

variable (h : Unambiguous file oldSymbols newSymbols) (r r' : Run file oldSymbols newSymbols)

lemma exists_kept_old {s : RawSymbol} (hs : s ∈ symbolsOf oldSymbols) :
    ∃ old, lastSymbol file r.old (rawSymbolCanonicalId file s) = some old ∧
      old ∈ symbolsOf oldSymbols ∧ rawSymbolCanonicalId file old = rawSymbolCanonicalId file s := by
  obtain ⟨old, hold⟩ := Option.isSome_iff_exists.mp
    (lastOf_isSome_of_mem (rawSymbolCanonicalId file) (r.mem_old.mpr hs))
  obtain ⟨hmem, hkey⟩ := mem_of_lastOf hold
  exact ⟨old, hold, r.mem_old.mp hmem, hkey⟩

lemma exists_kept_new {s : RawSymbol} (hs : s ∈ symbolsOf newSymbols) :
    ∃ new, lastSymbol file r.new (rawSymbolCanonicalId file s) = some new ∧
      new ∈ symbolsOf newSymbols ∧ rawSymbolCanonicalId file new = rawSymbolCanonicalId file s := by
  obtain ⟨new, hnew⟩ := Option.isSome_iff_exists.mp
    (lastOf_isSome_of_mem (rawSymbolCanonicalId file) (r.mem_new.mpr hs))
  obtain ⟨hmem, hkey⟩ := mem_of_lastOf hnew
  exact ⟨new, hnew, r.mem_new.mp hmem, hkey⟩

/-- The ids of the old side, in the order of the map. -/
lemma ids_perm : (r.oldMap.entries.map Prod.fst).Perm (r'.oldMap.entries.map Prod.fst) := by
  refine (List.perm_ext_iff_of_nodup r.oldMap.nodup r'.oldMap.nodup).mpr fun cid => ?_
  have hmem : ∀ r : Run file oldSymbols newSymbols, cid ∈ r.oldMap.entries.map Prod.fst ↔
      ∃ s ∈ symbolsOf oldSymbols, rawSymbolCanonicalId file s = cid := by
    intro r
    rw [List.mem_map]
    constructor
    · rintro ⟨⟨cid, old⟩, hentry, rfl⟩
      obtain ⟨hmem, hkey⟩ := mem_of_lastOf ((r.oldMap.mem_entries _ _).mp hentry)
      exact ⟨old, r.mem_old.mp hmem, hkey⟩
    · rintro ⟨s, hs, rfl⟩
      obtain ⟨old, hold, -⟩ := r.exists_kept_old hs
      exact ⟨(_, old), (r.oldMap.mem_entries _ _).mpr hold, rfl⟩
  rw [hmem r, hmem r']

/-- What a run reports of an id that both sides have. -/
def comparison (cid : String) : List AtomicChange :=
  match lastSymbol file r.old cid, lastSymbol file r.new cid with
  | some old, some new => matchedChanges file cid old new
  | _, _ => []

lemma matchById_eq : matchById file (lastSymbol file r.new) r.oldMap.entries =
    (r.oldMap.entries.map Prod.fst).flatMap r.comparison := by
  rw [matchById, List.flatMap_map]
  refine List.flatMap_congr fun entry hentry => ?_
  obtain ⟨cid, old⟩ := entry
  have hold : lastSymbol file r.old cid = some old := (r.oldMap.mem_entries _ _).mp hentry
  rw [comparison, hold]
  dsimp only
  cases lastSymbol file r.new cid with
  | none => rfl
  | some new => rfl

lemma onlyIn_of_mem_old {e : String × RawSymbol}
    (he : e ∈ r.oldMap.entries.filter fun entry => (lastSymbol file r.new entry.1).isNone) :
    OnlyIn file oldSymbols newSymbols e.2 ∧ rawSymbolCanonicalId file e.2 = e.1 := by
  rw [List.mem_filter, Option.isNone_iff_eq_none] at he
  obtain ⟨hmem, hkey⟩ := mem_of_lastOf ((r.oldMap.mem_entries _ _).mp he.1)
  refine ⟨⟨r.mem_old.mp hmem, ?_⟩, hkey⟩
  rw [hkey]
  exact r.lastSymbol_new_eq_none.mp he.2

lemma onlyIn_of_mem_new {e : String × RawSymbol}
    (he : e ∈ r.newMap.entries.filter fun entry => (lastSymbol file r.old entry.1).isNone) :
    OnlyIn file newSymbols oldSymbols e.2 ∧ rawSymbolCanonicalId file e.2 = e.1 := by
  rw [List.mem_filter, Option.isNone_iff_eq_none] at he
  obtain ⟨hmem, hkey⟩ := mem_of_lastOf ((r.newMap.mem_entries _ _).mp he.1)
  refine ⟨⟨r.mem_new.mp hmem, ?_⟩, hkey⟩
  rw [hkey]
  exact r.lastSymbol_old_eq_none.mp he.2

include h

lemma comparison_eq (cid : String) : r.comparison cid = r'.comparison cid := by
  rw [comparison, comparison]
  cases hold : lastSymbol file r.old cid with
  | none =>
    have hold' := r'.lastSymbol_old_eq_none.mpr (r.lastSymbol_old_eq_none.mp hold)
    rw [hold']
  | some old =>
    cases hnew : lastSymbol file r.new cid with
    | none =>
      have hnew' := r'.lastSymbol_new_eq_none.mpr (r.lastSymbol_new_eq_none.mp hnew)
      rw [hnew']
      cases lastSymbol file r'.old cid with
      | none => rfl
      | some _ => rfl
    | some new =>
      obtain ⟨holdMem, rfl⟩ := mem_of_lastOf hold
      obtain ⟨hnewMem, hid⟩ := mem_of_lastOf hnew
      rw [r.mem_old] at holdMem
      rw [r.mem_new] at hnewMem
      obtain ⟨old', hold', holdMem', hid'⟩ := r'.exists_kept_old holdMem
      obtain ⟨new', hnew', hnewMem', hnewId'⟩ := r'.exists_kept_new hnewMem
      rw [hid] at hnew' hnewId'
      rw [hold', hnew']
      refine (h.compared old holdMem new hnewMem old' holdMem' new' hnewMem' hid hid'
        hnewId').matchedChanges_eq ?_
      exact h.compared old' holdMem' new' hnewMem' old holdMem new hnewMem (hnewId'.trans hid'.symm)
        hid'.symm (hid.trans hid'.symm)

lemma compared_perm : (matchById file (lastSymbol file r.new) r.oldMap.entries).Perm
    (matchById file (lastSymbol file r'.new) r'.oldMap.entries) := by
  rw [matchById_eq, matchById_eq]
  refine List.Perm.flatMap (r.ids_perm r') fun cid _ => ?_
  rw [comparison_eq h r r' cid]

/-- The renames are all that are possible. -/
lemma mem_renames {c : AtomicChange} :
    c ∈ (renamesOf r.oldMap r.newMap).map (renamedChange file) ↔
      ∃ old new, OnlyIn file oldSymbols newSymbols old ∧ OnlyIn file newSymbols oldSymbols new ∧
        Compatible old new ∧ c = .symbolRenamed (rawSymbolCanonicalId file old) old.name new.name
          (rawSymbolCanonicalId file new) file.filePath := by
  rw [List.mem_map]
  constructor
  · rintro ⟨e, he, rfl⟩
    obtain ⟨⟨hold, holdKey⟩, ⟨hnew, hnewKey⟩, hcompatible⟩ := r.onlyIn_of_renamed he
    exact ⟨e.1.2, e.2.2, hold, hnew, hcompatible, by rw [holdKey, hnewKey]; rfl⟩
  · rintro ⟨old, new, hold, hnew, hcompatible, rfl⟩
    obtain ⟨old', hlast, holdMem, holdId⟩ := r.exists_kept_old hold.1
    obtain ⟨new', hlast', hnewMem, hnewId⟩ := r.exists_kept_new hnew.1
    obtain ⟨hcompatible', holdName, hnewName⟩ :=
      h.renamed old new old' new' hold hnew holdMem hnewMem holdId hnewId hcompatible
    refine ⟨((rawSymbolCanonicalId file old, old'), (rawSymbolCanonicalId file new, new')), ?_, ?_⟩
    · refine (mem_greedy_iff ?_ ?_).mpr ⟨?_, ?_, isRename_iff.mpr hcompatible'⟩
      · -- a symbol has one new partner
        intro a ha b hb b' hb' hab hab'
        obtain ⟨hold, -⟩ := r.onlyIn_of_mem_old ha
        obtain ⟨hnew, hkey⟩ := r.onlyIn_of_mem_new hb
        obtain ⟨hnew', hkey'⟩ := r.onlyIn_of_mem_new hb'
        refine r.newMap.eq_of_key (List.mem_of_mem_filter hb) (List.mem_of_mem_filter hb') ?_
        rw [← hkey, ← hkey']
        exact (h.one_new _ _ _ hold hnew hnew' (isRename_iff.mp hab) (isRename_iff.mp hab')).symm
      · -- and one old partner
        intro a ha a' ha' b hb hab hab'
        obtain ⟨hold, hkey⟩ := r.onlyIn_of_mem_old ha
        obtain ⟨hold', hkey'⟩ := r.onlyIn_of_mem_old ha'
        obtain ⟨hnew, -⟩ := r.onlyIn_of_mem_new hb
        refine r.oldMap.eq_of_key (List.mem_of_mem_filter ha) (List.mem_of_mem_filter ha') ?_
        rw [← hkey, ← hkey']
        exact (h.one_old _ _ _ hold hold' hnew (isRename_iff.mp hab) (isRename_iff.mp hab')).symm
      · rw [List.mem_filter, Option.isNone_iff_eq_none]
        exact ⟨(r.oldMap.mem_entries _ _).mpr hlast, r.lastSymbol_new_eq_none.mpr hold.2⟩
      · rw [List.mem_filter, Option.isNone_iff_eq_none]
        exact ⟨(r.newMap.mem_entries _ _).mpr hlast', r.lastSymbol_old_eq_none.mpr hnew.2⟩
    · rw [renamedChange, holdName, hnewName]

lemma renames_perm : ((renamesOf r.oldMap r.newMap).map (renamedChange file)).Perm
    ((renamesOf r'.oldMap r'.newMap).map (renamedChange file)) := by
  have hnodup : ∀ r : Run file oldSymbols newSymbols,
      ((renamesOf r.oldMap r.newMap).map (renamedChange file)).Nodup := by
    intro r
    refine List.Nodup.map_on (fun e he e' he' heq => ?_) ?_
    · simp only [renamedChange, AtomicChange.symbolRenamed.injEq] at heq
      exact r.renamed_once he he' (.inl heq.1)
    · have hentries := r.oldMap.nodup.of_map.filter fun entry =>
        (lastSymbol file r.new entry.1).isNone
      exact (hentries.sublist greedy_fst_sublist).of_map
  refine (List.perm_ext_iff_of_nodup (hnodup r) (hnodup r')).mpr fun c => ?_
  rw [mem_renames h r, mem_renames h r']

/-- What is said of all renames, two runs agree on. -/
lemma forall_renames {p : AtomicChange → Prop} :
    (∀ e ∈ renamesOf r.oldMap r.newMap, p (renamedChange file e)) ↔
      ∀ e ∈ renamesOf r'.oldMap r'.newMap, p (renamedChange file e) := by
  have hforall : ∀ r : Run file oldSymbols newSymbols,
      (∀ e ∈ renamesOf r.oldMap r.newMap, p (renamedChange file e)) ↔
        ∀ c ∈ (renamesOf r.oldMap r.newMap).map (renamedChange file), p c :=
    fun r => List.forall_mem_map.symm
  have hperm := renames_perm h r r'
  rw [hforall r, hforall r']
  exact ⟨fun hall c hc => hall c (hperm.mem_iff.mpr hc), fun hall c hc => hall c (hperm.mem_iff.mp hc)⟩

lemma changes_perm : r.changes.Perm r'.changes := by
  have hold : ∀ cid, (∀ e ∈ renamesOf r.oldMap r.newMap, e.1.1 ≠ cid) ↔
      ∀ e ∈ renamesOf r'.oldMap r'.newMap, e.1.1 ≠ cid := by
    intro cid
    have hforall := forall_renames h r r' (p := fun c => onOldId cid c = false)
    simpa only [renamedChange, onOldId, decide_eq_false_iff_not] using hforall
  have hnew : ∀ cid, (∀ e ∈ renamesOf r.oldMap r.newMap, e.2.1 ≠ cid) ↔
      ∀ e ∈ renamesOf r'.oldMap r'.newMap, e.2.1 ≠ cid := by
    intro cid
    have hforall := forall_renames h r r' (p := fun c => onNewId cid c = false)
    simpa only [renamedChange, onNewId, decide_eq_false_iff_not] using hforall
  rw [changes, changes, diffSymbols_eq, diffSymbols_eq]
  refine (((compared_perm h r r').append (renames_perm h r r')).append ?_).append ?_
  · simp only [hold, r.lastSymbol_new_eq_none, r'.lastSymbol_new_eq_none]
    exact (((r.old_perm.trans r'.old_perm.symm).filter _).filter _).map _
  · simp only [hnew, r.lastSymbol_old_eq_none, r'.lastSymbol_old_eq_none]
    exact (((r.new_perm.trans r'.new_perm.symm).filter _).filter _).map _

end Run

/-- **When a diff depends on no order.**  Exactly when no id has symbols that are compared differently, and
no rename leaves a choice. -/
theorem orderIndependent_iff_unambiguous (file : FileId) (oldSymbols newSymbols : List RawSymbol) :
    OrderIndependent file oldSymbols newSymbols ↔ Unambiguous file oldSymbols newSymbols :=
  ⟨unambiguous_of_orderIndependent, fun h r r' => Run.changes_perm h r r'⟩

/-- A file with classes `A` and `B`. -/
def classesFile : FileId where
  truncatedHash text :=
    if text = "A" then "559aead08264" else if text = "B" then "df7e70e50215" else "e1dcaa3496b9"
  filePath := "src/a.ts"
  repoUrl := "https://github.com/acme/api"

/-- A method without parameters. -/
def method (name scope : String) : RawSymbol where
  name := name
  kind := .method
  startLine := 1
  endLine := 1
  signature := name ++ "()"
  contentHash := ""
  isEntryPoint := false
  entryPointKind := none
  visibility := .public
  typeInfo := none
  parentName := some scope
  scopeChain := some scope

/-- Two methods are renamed; or one is, and then the other is removed and a method is added. -/
theorem orderIndependent_twoMethods : ¬ OrderIndependent classesFile
    [method "f" "A", method "g" "A"] [method "f" "B", method "h" "A"] := by
  intro h
  have hperm := h
    ⟨[method "f" "A", method "g" "A"], [method "f" "B", method "h" "A"], .refl _, .refl _,
      .collect _ _, .collect _ _⟩
    ⟨[method "g" "A", method "f" "A"], [method "f" "B", method "h" "A"], .swap _ _ _, .refl _,
      .collect _ _, .collect _ _⟩
  have hlength := hperm.length_eq
  revert hlength
  decide +kernel

end AtomicChanges
end NestWeaver
