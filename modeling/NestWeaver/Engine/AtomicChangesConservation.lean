import NestWeaver.Engine.AtomicChanges
import NestWeaver.Framework.GreedyMatching
import Mathlib.Data.List.Count
import Mathlib.Data.List.Perm.Basic

/-!
# What a diff loses

The diff decides by the last symbol of each canonical id.  It accounts for every symbol that one side has
more often exactly when no id hides a difference behind its last symbols (`NothingHidden`).
-/

set_option linter.all false

namespace NestWeaver
namespace AtomicChanges

variable (file : FileId) (oldSymbols newSymbols : List RawSymbol)

/-! ## Accounting -/

/-- How often a symbol of this id and signature occurs. -/
def multiplicity (symbols : List RawSymbol) (cid signature : String) : ℕ :=
  (symbolsOf symbols).countP fun s => rawSymbolCanonicalId file s = cid ∧ s.signature = signature

/-- A removal, a changed signature or a rename of this id. -/
def onOldId (cid : String) : AtomicChange → Bool
  | .symbolRemoved canonicalId .. => canonicalId = cid
  | .signatureChanged canonicalId .. => canonicalId = cid
  | .symbolRenamed oldCanonicalId .. => oldCanonicalId = cid
  | _ => false

/-- A changed signature of this id, or a rename to it. -/
def onNewId (cid : String) : AtomicChange → Bool
  | .signatureChanged canonicalId .. => canonicalId = cid
  | .symbolRenamed _ _ _ newCanonicalId _ => newCanonicalId = cid
  | _ => false

/-- The new list has more symbols of the id and signature of this one. -/
def Surplus (s : RawSymbol) : Prop :=
  multiplicity file oldSymbols (rawSymbolCanonicalId file s) s.signature <
    multiplicity file newSymbols (rawSymbolCanonicalId file s) s.signature

instance (s : RawSymbol) : Decidable (Surplus file oldSymbols newSymbols s) :=
  inferInstanceAs (Decidable (_ < _))

/-- No symbol change is lost: what the old list has more often is removed, changed or renamed, what the new
list has more often is changed, renamed to, or added once for each occurrence, and nothing is reported for a
permutation. -/
structure Conserves (changes : List AtomicChange) : Prop where
  removals : ∀ s ∈ symbolsOf oldSymbols, Surplus file newSymbols oldSymbols s →
    changes.any (onOldId (rawSymbolCanonicalId file s)) = true
  additions : ∀ s ∈ symbolsOf newSymbols, Surplus file oldSymbols newSymbols s →
    changes.any (onNewId (rawSymbolCanonicalId file s)) = true ∨
      ((symbolsOf newSymbols).countP fun s' => addedChange file s' = addedChange file s ∧
          Surplus file oldSymbols newSymbols s' ∧
          changes.any (onNewId (rawSymbolCanonicalId file s')) = false) ≤
        changes.count (addedChange file s)
  silence : (symbolsOf oldSymbols).Perm (symbolsOf newSymbols) → changes = []

/-- The last symbol of an id. -/
abbrev lastSymbol (symbols : List RawSymbol) : String → Option RawSymbol :=
  lastOf (rawSymbolCanonicalId file) (symbolsOf symbols)

/-- No id that both lists have hides a difference: if its last symbols have one signature, its signatures
occur equally often; and a permutation leaves the last symbol of each id its signature and its being
public. -/
structure NothingHidden : Prop where
  counts : ∀ cid old new, lastSymbol file oldSymbols cid = some old →
    lastSymbol file newSymbols cid = some new → old.signature = new.signature →
    ∀ signature, multiplicity file oldSymbols cid signature = multiplicity file newSymbols cid signature
  order : (symbolsOf oldSymbols).Perm (symbolsOf newSymbols) →
    ∀ cid old new, lastSymbol file oldSymbols cid = some old →
      lastSymbol file newSymbols cid = some new →
      old.signature = new.signature ∧ (old.visibility = .public ↔ new.visibility = .public)

/-! ## The phases -/

variable {file oldSymbols newSymbols}

def renamedChange (file : FileId) (r : (String × RawSymbol) × (String × RawSymbol)) : AtomicChange :=
  .symbolRenamed r.1.1 r.1.2.name r.2.2.name r.2.1 file.filePath

/-- The rename loop is a greedy matching. -/
lemma foldl_renameStep (file : FileId) (entries : List (String × RawSymbol)) (st : RenameState) :
    (entries.foldl (renameStep file) st).changes = st.changes ++
        (greedy (fun old new => isRename old.2 new) entries st.unmatchedNew).map (renamedChange file) ∧
      (∀ cid, cid ∈ (entries.foldl (renameStep file) st).matchedOld ↔ cid ∈ st.matchedOld ∨
        ∃ r ∈ greedy (fun old new => isRename old.2 new) entries st.unmatchedNew, r.1.1 = cid) ∧
      ∀ cid, cid ∈ (entries.foldl (renameStep file) st).matchedNew ↔ cid ∈ st.matchedNew ∨
        ∃ r ∈ greedy (fun old new => isRename old.2 new) entries st.unmatchedNew, r.2.1 = cid := by
  induction entries generalizing st with
  | nil => exact ⟨by simp [greedy], by simp [greedy], by simp [greedy]⟩
  | cons entry entries ih =>
    rw [List.foldl_cons, greedy]
    obtain ⟨hchanges, hold, hnew⟩ := ih (renameStep file st entry)
    cases hfind : st.unmatchedNew.find? (isRename entry.2) with
    | none =>
      have hstep : renameStep file st entry = st := by rw [renameStep, hfind]
      rw [hstep] at hchanges hold hnew ⊢
      exact ⟨hchanges, hold, hnew⟩
    | some new =>
      have hstep : renameStep file st entry =
          { unmatchedNew := st.unmatchedNew.eraseP (isRename entry.2)
            matchedOld := entry.1 :: st.matchedOld
            matchedNew := new.1 :: st.matchedNew
            changes := st.changes ++ [renamedChange file (entry, new)] } := by
        rw [renameStep, hfind]
        rfl
      rw [hstep] at hchanges hold hnew ⊢
      refine ⟨?_, fun cid => ?_, fun cid => ?_⟩
      · rw [hchanges]
        simp
      · rw [hold, List.mem_cons]
        simp [or_assoc, or_left_comm, eq_comm]
      · rw [hnew, List.mem_cons]
        simp [or_assoc, or_left_comm, eq_comm]

/-- The renames: what only the old side has is matched with what only the new side has. -/
def renamesOf (oldMap : SymbolMap file oldSymbols) (newMap : SymbolMap file newSymbols) :
    List ((String × RawSymbol) × (String × RawSymbol)) :=
  greedy (fun old new => isRename old.2 new)
    (oldMap.entries.filter fun entry => (lastSymbol file newSymbols entry.1).isNone)
    (newMap.entries.filter fun entry => (lastSymbol file oldSymbols entry.1).isNone)

lemma mem_renamesOf {oldMap : SymbolMap file oldSymbols} {newMap : SymbolMap file newSymbols}
    {r : (String × RawSymbol) × (String × RawSymbol)} (hr : r ∈ renamesOf oldMap newMap) :
    (lastSymbol file oldSymbols r.1.1 = some r.1.2 ∧ lastSymbol file newSymbols r.1.1 = none) ∧
      (lastSymbol file newSymbols r.2.1 = some r.2.2 ∧ lastSymbol file oldSymbols r.2.1 = none) ∧
      isRename r.1.2 r.2 = true := by
  obtain ⟨hold, hnew, hrename⟩ := mem_greedy hr
  rw [List.mem_filter, Option.isNone_iff_eq_none] at hold hnew
  exact ⟨⟨(oldMap.mem_entries _ _).mp hold.1, hold.2⟩, ⟨(newMap.mem_entries _ _).mp hnew.1, hnew.2⟩,
    hrename⟩

variable {oldMap : SymbolMap file oldSymbols} {newMap : SymbolMap file newSymbols}

/-- **The diff**: what both sides have is compared, what only the old side has is renamed or removed, and
what only the new side has is renamed to or added. -/
lemma diffSymbols_eq (oldMap : SymbolMap file oldSymbols) (newMap : SymbolMap file newSymbols) :
    diffSymbols file oldSymbols newSymbols oldMap newMap =
      matchById file (lastSymbol file newSymbols) oldMap.entries ++
          (renamesOf oldMap newMap).map (renamedChange file) ++
        ((symbolsOf oldSymbols).filter fun s =>
            lastSymbol file newSymbols (rawSymbolCanonicalId file s) = none ∧
              ∀ r ∈ renamesOf oldMap newMap, r.1.1 ≠ rawSymbolCanonicalId file s).map
          (removedChange file) ++
        ((symbolsOf newSymbols).filter fun s =>
            lastSymbol file oldSymbols (rawSymbolCanonicalId file s) = none ∧
              ∀ r ∈ renamesOf oldMap newMap, r.2.1 ≠ rawSymbolCanonicalId file s).map
          (addedChange file) := by
  set matched := (oldMap.entries.map Prod.fst).filter fun cid =>
    (lastSymbol file newSymbols cid).isSome with hmatched
  obtain ⟨hchanges, hold, hnew⟩ := foldl_renameStep file
    (oldMap.entries.filter fun entry => (lastSymbol file newSymbols entry.1).isNone)
    { unmatchedNew := newMap.entries.filter fun entry => (lastSymbol file oldSymbols entry.1).isNone
      matchedOld := matched
      matchedNew := matched
      changes := matchById file (lastSymbol file newSymbols) oldMap.entries }
  have hmatch : ∀ cid, cid ∈ matched ↔
      (lastSymbol file oldSymbols cid).isSome ∧ (lastSymbol file newSymbols cid).isSome := by
    intro cid
    rw [hmatched, List.mem_filter, List.mem_map]
    constructor
    · rintro ⟨⟨entry, hentry, rfl⟩, hsome⟩
      have hlast := (oldMap.mem_entries entry.1 entry.2).mp hentry
      exact ⟨Option.isSome_of_eq_some hlast, hsome⟩
    · rintro ⟨hlast, hsome⟩
      obtain ⟨s, hs⟩ := Option.isSome_iff_exists.mp hlast
      exact ⟨⟨(cid, s), (oldMap.mem_entries cid s).mpr hs, rfl⟩, hsome⟩
  have hrun : matchSymbols file oldSymbols newSymbols oldMap newMap = (oldMap.entries.filter
      fun entry => (lastSymbol file newSymbols entry.1).isNone).foldl (renameStep file)
    { unmatchedNew := newMap.entries.filter fun entry => (lastSymbol file oldSymbols entry.1).isNone
      matchedOld := matched
      matchedNew := matched
      changes := matchById file (lastSymbol file newSymbols) oldMap.entries } := rfl
  have holdFilter : ∀ s ∈ symbolsOf oldSymbols,
      decide (rawSymbolCanonicalId file s ∉
          (matchSymbols file oldSymbols newSymbols oldMap newMap).matchedOld) =
        decide (lastSymbol file newSymbols (rawSymbolCanonicalId file s) = none ∧
          ∀ r ∈ renamesOf oldMap newMap, r.1.1 ≠ rawSymbolCanonicalId file s) := by
    intro s hs
    have hlast := lastOf_isSome_of_mem (rawSymbolCanonicalId file) hs
    rw [decide_eq_decide, hrun, hold, hmatch, not_or, ← Option.not_isSome_iff_eq_none]
    refine and_congr ?_ ⟨fun h r hr heq => h ⟨r, hr, heq⟩, fun h ⟨r, hr, heq⟩ => h r hr heq⟩
    exact ⟨fun h hsome => h ⟨hlast, hsome⟩, fun h hboth => h hboth.2⟩
  have hnewFilter : ∀ s ∈ symbolsOf newSymbols,
      decide (rawSymbolCanonicalId file s ∉
          (matchSymbols file oldSymbols newSymbols oldMap newMap).matchedNew) =
        decide (lastSymbol file oldSymbols (rawSymbolCanonicalId file s) = none ∧
          ∀ r ∈ renamesOf oldMap newMap, r.2.1 ≠ rawSymbolCanonicalId file s) := by
    intro s hs
    have hlast := lastOf_isSome_of_mem (rawSymbolCanonicalId file) hs
    rw [decide_eq_decide, hrun, hnew, hmatch, not_or, ← Option.not_isSome_iff_eq_none]
    refine and_congr ?_ ⟨fun h r hr heq => h ⟨r, hr, heq⟩, fun h ⟨r, hr, heq⟩ => h r hr heq⟩
    exact ⟨fun h hsome => h ⟨hsome, hlast⟩, fun h hboth => h hboth.1⟩
  rw [diffSymbols, List.filter_congr holdFilter, List.filter_congr hnewFilter, hrun, hchanges]
  rfl

/-- Some renames, of what one side has, to what the other has. -/
lemma diffSymbols_spec (oldMap : SymbolMap file oldSymbols) (newMap : SymbolMap file newSymbols) :
    ∃ renames : List ((String × RawSymbol) × (String × RawSymbol)),
      (∀ r ∈ renames, (lastSymbol file oldSymbols r.1.1).isSome ∧
        lastSymbol file newSymbols r.1.1 = none ∧ lastSymbol file oldSymbols r.2.1 = none) ∧
      diffSymbols file oldSymbols newSymbols oldMap newMap =
        matchById file (lastSymbol file newSymbols) oldMap.entries ++
            renames.map (renamedChange file) ++
          ((symbolsOf oldSymbols).filter fun s =>
              lastSymbol file newSymbols (rawSymbolCanonicalId file s) = none ∧
                ∀ r ∈ renames, r.1.1 ≠ rawSymbolCanonicalId file s).map (removedChange file) ++
          ((symbolsOf newSymbols).filter fun s =>
              lastSymbol file oldSymbols (rawSymbolCanonicalId file s) = none ∧
                ∀ r ∈ renames, r.2.1 ≠ rawSymbolCanonicalId file s).map (addedChange file) := by
  refine ⟨renamesOf oldMap newMap, fun r hr => ?_, diffSymbols_eq oldMap newMap⟩
  obtain ⟨⟨hold, hnew⟩, ⟨-, hunmatched⟩, -⟩ := mem_renamesOf hr
  exact ⟨Option.isSome_of_eq_some hold, hnew, hunmatched⟩

/-! ## What is reported -/

/-- The last symbols of the id have different signatures. -/
def Differs (file : FileId) (oldSymbols newSymbols : List RawSymbol) (cid : String) : Prop :=
  ∃ old new, lastSymbol file oldSymbols cid = some old ∧ lastSymbol file newSymbols cid = some new ∧
    old.signature ≠ new.signature

lemma any_matchedChanges {p : AtomicChange → Bool} (hadded : ∀ cid name path,
      p (.exportAdded cid name path) = false) (hremoved : ∀ cid name path,
      p (.exportRemoved cid name path) = false) (cid : String) (old new : RawSymbol) :
    (matchedChanges file cid old new).any p = true ↔ old.signature ≠ new.signature ∧
      p (.signatureChanged cid old.name old.signature new.signature file.filePath) = true := by
  rw [matchedChanges]
  split_ifs <;> simp_all

/-- Phase 1 reports the ids whose last symbols differ. -/
lemma any_matchById (cid : String) {p : AtomicChange → Bool}
    (hadded : ∀ cid name path, p (.exportAdded cid name path) = false)
    (hremoved : ∀ cid name path, p (.exportRemoved cid name path) = false)
    (hchanged : ∀ cid' name old new path,
      p (.signatureChanged cid' name old new path) = decide (cid' = cid))
    (oldMap : SymbolMap file oldSymbols) :
    (matchById file (lastSymbol file newSymbols) oldMap.entries).any p = true ↔
      Differs file oldSymbols newSymbols cid := by
  rw [matchById, List.any_flatMap, List.any_eq_true]
  constructor
  · rintro ⟨⟨cid', old⟩, hentry, hany⟩
    cases hnew : lastSymbol file newSymbols cid' with
    | none => simp [hnew] at hany
    | some new =>
      simp only [hnew] at hany
      rw [any_matchedChanges hadded hremoved, hchanged, decide_eq_true_eq] at hany
      obtain ⟨hne, rfl⟩ := hany
      exact ⟨old, new, (oldMap.mem_entries _ _).mp hentry, hnew, hne⟩
  · rintro ⟨old, new, hold, hnew, hne⟩
    refine ⟨(cid, old), (oldMap.mem_entries _ _).mpr hold, ?_⟩
    simp only [hnew]
    rw [any_matchedChanges hadded hremoved, hchanged]
    exact ⟨hne, decide_eq_true rfl⟩

/-- An id is reported for the old side if its last symbols differ or the new side does not have it. -/
lemma any_onOldId (oldMap : SymbolMap file oldSymbols) (newMap : SymbolMap file newSymbols)
    {cid : String} (hold : (lastSymbol file oldSymbols cid).isSome) :
    (diffSymbols file oldSymbols newSymbols oldMap newMap).any (onOldId cid) = true ↔
      Differs file oldSymbols newSymbols cid ∨ lastSymbol file newSymbols cid = none := by
  obtain ⟨renames, hrenames, hdiff⟩ := diffSymbols_spec oldMap newMap
  rw [hdiff, List.any_append, List.any_append, List.any_append, Bool.or_eq_true, Bool.or_eq_true,
    Bool.or_eq_true, any_matchById cid (by simp [onOldId]) (by simp [onOldId]) (by simp [onOldId])]
  constructor
  · rintro (((hdiffers | hrenamed) | hremoved) | hadded)
    · exact .inl hdiffers
    · rw [List.any_map, List.any_eq_true] at hrenamed
      obtain ⟨r, hr, hcid⟩ := hrenamed
      obtain rfl : r.1.1 = cid := by simpa [renamedChange, onOldId] using hcid
      exact .inr (hrenames r hr).2.1
    · rw [List.any_map, List.any_eq_true] at hremoved
      obtain ⟨s, hs, hcid⟩ := hremoved
      obtain rfl : rawSymbolCanonicalId file s = cid := by simpa [removedChange, onOldId] using hcid
      rw [List.mem_filter, decide_eq_true_eq] at hs
      exact .inr hs.2.1
    · simp [addedChange, onOldId] at hadded
  · rintro (hdiffers | hnone)
    · exact .inl (.inl (.inl hdiffers))
    · by_cases hrenamed : ∃ r ∈ renames, r.1.1 = cid
      · obtain ⟨r, hr, rfl⟩ := hrenamed
        refine .inl (.inl (.inr ?_))
        rw [List.any_map, List.any_eq_true]
        exact ⟨r, hr, by simp [renamedChange, onOldId]⟩
      · obtain ⟨s, hs, rfl⟩ := lastOf_isSome.mp hold
        refine .inl (.inr ?_)
        rw [List.any_map, List.any_eq_true]
        refine ⟨s, List.mem_filter.mpr ⟨hs, decide_eq_true ⟨hnone, fun r hr heq => ?_⟩⟩,
          by simp [removedChange, onOldId]⟩
        exact hrenamed ⟨r, hr, heq⟩

/-- An id is reported for the new side if its last symbols differ or it is renamed to. -/
lemma any_onNewId (cid : String) (oldMap : SymbolMap file oldSymbols)
    {renames : List ((String × RawSymbol) × (String × RawSymbol))} {removed added : List RawSymbol} :
    (matchById file (lastSymbol file newSymbols) oldMap.entries ++ renames.map (renamedChange file) ++
        removed.map (removedChange file) ++ added.map (addedChange file)).any (onNewId cid) = true ↔
      Differs file oldSymbols newSymbols cid ∨ ∃ r ∈ renames, r.2.1 = cid := by
  rw [List.any_append, List.any_append, List.any_append, Bool.or_eq_true, Bool.or_eq_true,
    Bool.or_eq_true, any_matchById cid (by simp [onNewId]) (by simp [onNewId]) (by simp [onNewId])]
  have hremoved : (removed.map (removedChange file)).any (onNewId cid) = false := by
    simp [removedChange, onNewId]
  have hadded : (added.map (addedChange file)).any (onNewId cid) = false := by
    simp [addedChange, onNewId]
  have hrenamed : (renames.map (renamedChange file)).any (onNewId cid) = true ↔
      ∃ r ∈ renames, r.2.1 = cid := by
    simp [List.any_map, List.any_eq_true, renamedChange, onNewId]
  rw [hremoved, hadded, hrenamed]
  simp

/-- Additions are reported by the last phase only. -/
lemma count_addedChange (s : RawSymbol) (oldMap : SymbolMap file oldSymbols)
    {renames : List ((String × RawSymbol) × (String × RawSymbol))} {removed added : List RawSymbol} :
    (matchById file (lastSymbol file newSymbols) oldMap.entries ++ renames.map (renamedChange file) ++
        removed.map (removedChange file) ++ added.map (addedChange file)).count (addedChange file s) =
      added.countP fun s' => addedChange file s' = addedChange file s := by
  have hmatched : addedChange file s ∉
      matchById file (lastSymbol file newSymbols) oldMap.entries := by
    rw [matchById, List.mem_flatMap]
    rintro ⟨⟨cid, old⟩, -, hmem⟩
    dsimp only at hmem
    split at hmem
    · rw [matchedChanges] at hmem
      split_ifs at hmem <;> simp [addedChange] at hmem
    · exact List.not_mem_nil hmem
  rw [List.count_append, List.count_append, List.count_append, List.count_eq_zero.mpr hmatched,
    List.count_eq_zero.mpr (by simp [addedChange, renamedChange]),
    List.count_eq_zero.mpr (by simp [addedChange, removedChange]), List.count, List.countP_map,
    Nat.zero_add]
  rfl

/-! ## Multiplicities -/

lemma multiplicity_pos {symbols : List RawSymbol} {s : RawSymbol} (hs : s ∈ symbolsOf symbols) :
    0 < multiplicity file symbols (rawSymbolCanonicalId file s) s.signature := by
  rw [multiplicity, List.countP_pos_iff]
  exact ⟨s, hs, by simp⟩

lemma exists_of_multiplicity_pos {symbols : List RawSymbol} {cid signature : String}
    (h : 0 < multiplicity file symbols cid signature) :
    ∃ s ∈ symbolsOf symbols, rawSymbolCanonicalId file s = cid ∧ s.signature = signature := by
  obtain ⟨s, hs, heq⟩ := List.countP_pos_iff.mp h
  exact ⟨s, hs, of_decide_eq_true heq⟩

lemma multiplicity_eq_zero {symbols : List RawSymbol} {cid : String} (signature : String)
    (h : lastSymbol file symbols cid = none) : multiplicity file symbols cid signature = 0 := by
  by_contra hne
  obtain ⟨s, hs, heq, -⟩ := exists_of_multiplicity_pos (Nat.pos_of_ne_zero hne)
  exact lastOf_eq_none.mp h s hs heq

/-- Differences that are hidden on neither side. -/
lemma counts_of_surplus (hremovals : ∀ s ∈ symbolsOf oldSymbols, Surplus file newSymbols oldSymbols s →
      Differs file oldSymbols newSymbols (rawSymbolCanonicalId file s) ∨
        lastSymbol file newSymbols (rawSymbolCanonicalId file s) = none)
    (hadditions : ∀ s ∈ symbolsOf newSymbols, Surplus file oldSymbols newSymbols s →
      Differs file oldSymbols newSymbols (rawSymbolCanonicalId file s) ∨
        lastSymbol file oldSymbols (rawSymbolCanonicalId file s) = none) :
    ∀ cid old new, lastSymbol file oldSymbols cid = some old →
      lastSymbol file newSymbols cid = some new → old.signature = new.signature →
      ∀ signature,
        multiplicity file oldSymbols cid signature = multiplicity file newSymbols cid signature := by
  intro cid old new hold hnew hsame signature
  have hnot : ¬Differs file oldSymbols newSymbols cid := by
    rintro ⟨old', new', hold', hnew', hne⟩
    rw [hold] at hold'
    rw [hnew] at hnew'
    rw [← Option.some.inj hold', ← Option.some.inj hnew'] at hne
    exact hne hsame
  rcases lt_trichotomy (multiplicity file oldSymbols cid signature)
    (multiplicity file newSymbols cid signature) with hlt | heq | hgt
  · obtain ⟨s, hs, rfl, rfl⟩ := exists_of_multiplicity_pos (Nat.zero_lt_of_lt hlt)
    rcases hadditions s hs hlt with hdiffers | hnone
    · exact absurd hdiffers hnot
    · rw [hold] at hnone
      cases hnone
  · exact heq
  · obtain ⟨s, hs, rfl, rfl⟩ := exists_of_multiplicity_pos (Nat.zero_lt_of_lt hgt)
    rcases hremovals s hs hgt with hdiffers | hnone
    · exact absurd hdiffers hnot
    · rw [hnew] at hnone
      cases hnone

/-- Equal counts leave a surplus only to the ids of one side. -/
lemma surplus_cases (hcounts : ∀ cid old new, lastSymbol file oldSymbols cid = some old →
      lastSymbol file newSymbols cid = some new → old.signature = new.signature →
      ∀ signature,
        multiplicity file oldSymbols cid signature = multiplicity file newSymbols cid signature)
    {cid signature : String} (hne : multiplicity file oldSymbols cid signature ≠
      multiplicity file newSymbols cid signature) :
    Differs file oldSymbols newSymbols cid ∨ lastSymbol file newSymbols cid = none ∨
      lastSymbol file oldSymbols cid = none := by
  cases hold : lastSymbol file oldSymbols cid with
  | none => exact .inr (.inr rfl)
  | some old =>
    cases hnew : lastSymbol file newSymbols cid with
    | none => exact .inr (.inl rfl)
    | some new =>
      by_cases hsame : old.signature = new.signature
      · exact absurd (hcounts cid old new hold hnew hsame signature) hne
      · exact .inl ⟨old, new, hold, hnew, hsame⟩

lemma matchedChanges_eq_nil {cid : String} {old new : RawSymbol} :
    matchedChanges file cid old new = [] ↔
      old.signature = new.signature ∧ (old.visibility = .public ↔ new.visibility = .public) := by
  rw [matchedChanges, List.append_eq_nil_iff]
  by_cases hold : old.visibility = .public <;> by_cases hnew : new.visibility = .public <;>
    simp [hold, hnew]

/-- A permutation changes nothing but the order. -/
lemma silence_iff (oldMap : SymbolMap file oldSymbols) (newMap : SymbolMap file newSymbols)
    (hperm : (symbolsOf oldSymbols).Perm (symbolsOf newSymbols)) :
    diffSymbols file oldSymbols newSymbols oldMap newMap = [] ↔
      ∀ cid old new, lastSymbol file oldSymbols cid = some old →
        lastSymbol file newSymbols cid = some new →
        old.signature = new.signature ∧ (old.visibility = .public ↔ new.visibility = .public) := by
  have hsome : ∀ cid, (lastSymbol file oldSymbols cid).isSome ↔
      (lastSymbol file newSymbols cid).isSome := by
    intro cid
    rw [lastSymbol, lastSymbol, lastOf_isSome, lastOf_isSome]
    simp only [hperm.mem_iff]
  obtain ⟨renames, hrenames, hdiff⟩ := diffSymbols_spec oldMap newMap
  have hnil : renames = [] := by
    refine List.eq_nil_iff_forall_not_mem.mpr fun r hr => ?_
    obtain ⟨hold, hnew, -⟩ := hrenames r hr
    have hsome' := (hsome _).mp hold
    rw [hnew] at hsome'
    cases hsome'
  have hremoved : (symbolsOf oldSymbols).filter (fun s =>
      lastSymbol file newSymbols (rawSymbolCanonicalId file s) = none ∧
        ∀ r ∈ renames, r.1.1 ≠ rawSymbolCanonicalId file s) = [] := by
    rw [List.filter_eq_nil_iff]
    intro s hs
    have hnew := (hsome _).mp (lastOf_isSome_of_mem (rawSymbolCanonicalId file) hs)
    simp [Option.ne_none_iff_isSome.mpr hnew]
  have hadded : (symbolsOf newSymbols).filter (fun s =>
      lastSymbol file oldSymbols (rawSymbolCanonicalId file s) = none ∧
        ∀ r ∈ renames, r.2.1 ≠ rawSymbolCanonicalId file s) = [] := by
    rw [List.filter_eq_nil_iff]
    intro s hs
    have hold := (hsome _).mpr (lastOf_isSome_of_mem (rawSymbolCanonicalId file) hs)
    simp [Option.ne_none_iff_isSome.mpr hold]
  rw [hdiff, hremoved, hadded, hnil, matchById]
  simp only [List.map_nil, List.append_nil, List.flatMap_eq_nil_iff]
  constructor
  · intro h cid old new hold hnew
    have hentry := h (cid, old) ((oldMap.mem_entries cid old).mpr hold)
    simp only [hnew] at hentry
    exact matchedChanges_eq_nil.mp hentry
  · rintro h ⟨cid, old⟩ hentry
    have hold := (oldMap.mem_entries cid old).mp hentry
    cases hnew : lastSymbol file newSymbols cid with
    | none => rfl
    | some new => exact matchedChanges_eq_nil.mpr (h cid old new hold hnew)

/-! ## The condition -/

lemma countP_lt_countP {α : Type*} {p q : α → Bool} {xs : List α} {x : α}
    (hpq : ∀ y ∈ xs, p y = true → q y = true) (hx : x ∈ xs) (hq : q x = true) (hp : p x = false) :
    xs.countP p < xs.countP q := by
  induction xs with
  | nil => exact absurd hx List.not_mem_nil
  | cons y xs ih =>
    have hle := List.countP_mono_left fun z hz => hpq z (List.mem_cons_of_mem _ hz)
    rw [List.countP_cons, List.countP_cons]
    obtain rfl | hx := List.mem_cons.mp hx
    · rw [if_pos hq, if_neg (by simp [hp])]
      omega
    · have hlt := ih (fun z hz => hpq z (List.mem_cons_of_mem _ hz)) hx
      have hy := hpq y List.mem_cons_self
      by_cases hpy : p y = true
      · rw [if_pos hpy, if_pos (hy hpy)]
        omega
      · rw [if_neg hpy]
        omega

/-- A symbol of the new side only is surplus, and reported by the last phase only. -/
lemma surplus_of_unmatched {s : RawSymbol} (hs : s ∈ symbolsOf newSymbols)
    (hold : lastSymbol file oldSymbols (rawSymbolCanonicalId file s) = none) :
    Surplus file oldSymbols newSymbols s ∧
      ¬Differs file oldSymbols newSymbols (rawSymbolCanonicalId file s) := by
  refine ⟨?_, ?_⟩
  · rw [Surplus, multiplicity_eq_zero s.signature hold]
    exact multiplicity_pos hs
  · rintro ⟨old, new, hold', -⟩
    rw [hold] at hold'
    cases hold'

/-- What the new list has more often is changed or new, if every occurrence is reported. -/
lemma differs_or_new_of_counted (oldMap : SymbolMap file oldSymbols) (newMap : SymbolMap file newSymbols)
    {s : RawSymbol} (hs : s ∈ symbolsOf newSymbols) (hsurplus : Surplus file oldSymbols newSymbols s)
    (hcounted : (diffSymbols file oldSymbols newSymbols oldMap newMap).any
          (onNewId (rawSymbolCanonicalId file s)) = true ∨
        ((symbolsOf newSymbols).countP fun s' => addedChange file s' = addedChange file s ∧
            Surplus file oldSymbols newSymbols s' ∧
            (diffSymbols file oldSymbols newSymbols oldMap newMap).any
              (onNewId (rawSymbolCanonicalId file s')) = false) ≤
          (diffSymbols file oldSymbols newSymbols oldMap newMap).count (addedChange file s)) :
    Differs file oldSymbols newSymbols (rawSymbolCanonicalId file s) ∨
      lastSymbol file oldSymbols (rawSymbolCanonicalId file s) = none := by
  by_contra hnot
  rw [not_or] at hnot
  obtain ⟨hdiffers, hold⟩ := hnot
  obtain ⟨renames, hrenames, hdiff⟩ := diffSymbols_spec oldMap newMap
  have hunreported : ¬(Differs file oldSymbols newSymbols (rawSymbolCanonicalId file s) ∨
      ∃ r ∈ renames, r.2.1 = rawSymbolCanonicalId file s) := by
    rintro (hdiffers' | ⟨r, hr, heq⟩)
    · exact hdiffers hdiffers'
    · exact hold (heq ▸ (hrenames r hr).2.2)
  -- this occurrence is counted, and none of the last phase's additions is its own
  have hlt : ((symbolsOf newSymbols).countP fun s' =>
        decide (addedChange file s' = addedChange file s) &&
          decide (lastSymbol file oldSymbols (rawSymbolCanonicalId file s') = none ∧
            ∀ r ∈ renames, r.2.1 ≠ rawSymbolCanonicalId file s')) <
      (symbolsOf newSymbols).countP fun s' => decide (addedChange file s' = addedChange file s ∧
        Surplus file oldSymbols newSymbols s' ∧
        (diffSymbols file oldSymbols newSymbols oldMap newMap).any
          (onNewId (rawSymbolCanonicalId file s')) = false) := by
    refine countP_lt_countP ?_ hs ?_ ?_
    · intro s' hs' hp
      rw [Bool.and_eq_true, decide_eq_true_eq, decide_eq_true_eq] at hp
      obtain ⟨heq, hnone, hrenamed⟩ := hp
      obtain ⟨hsurplus', hdiffers'⟩ := surplus_of_unmatched hs' hnone
      refine decide_eq_true ⟨heq, hsurplus', ?_⟩
      rw [Bool.eq_false_iff, hdiff, ne_eq, any_onNewId]
      rintro (hdiffers'' | ⟨r, hr, heq'⟩)
      · exact hdiffers' hdiffers''
      · exact hrenamed r hr heq'
    · refine decide_eq_true ⟨rfl, hsurplus, ?_⟩
      rw [Bool.eq_false_iff, hdiff, ne_eq, any_onNewId]
      exact hunreported
    · have hnot : ¬(lastSymbol file oldSymbols (rawSymbolCanonicalId file s) = none ∧
          ∀ r ∈ renames, r.2.1 ≠ rawSymbolCanonicalId file s) := fun h => hold h.1
      rw [decide_eq_false hnot, Bool.and_false]
  rw [hdiff, count_addedChange, List.countP_filter, any_onNewId] at hcounted
  rw [hdiff] at hlt
  rcases hcounted with hreported | hle
  · exact hunreported hreported
  · exact absurd hlt (Nat.not_lt.mpr hle)

/-- **What a diff loses**: for every order in which its maps are visited, the diff accounts for every symbol
change exactly when no id hides a difference behind its last symbols. -/
theorem diffSymbols_conserves_iff (oldMap : SymbolMap file oldSymbols)
    (newMap : SymbolMap file newSymbols) :
    Conserves file oldSymbols newSymbols (diffSymbols file oldSymbols newSymbols oldMap newMap) ↔
      NothingHidden file oldSymbols newSymbols := by
  constructor
  · rintro ⟨hremovals, hadditions, hsilence⟩
    refine ⟨?_, fun hperm => (silence_iff oldMap newMap hperm).mp (hsilence hperm)⟩
    refine counts_of_surplus (fun s hs hsurplus => ?_) fun s hs hsurplus => ?_
    · have hold := lastOf_isSome_of_mem (rawSymbolCanonicalId file) hs
      exact (any_onOldId oldMap newMap hold).mp (hremovals s hs hsurplus)
    · exact differs_or_new_of_counted oldMap newMap hs hsurplus (hadditions s hs hsurplus)
  · rintro ⟨hcounts, horder⟩
    refine ⟨fun s hs hsurplus => ?_, fun s hs hsurplus => ?_,
      fun hperm => (silence_iff oldMap newMap hperm).mpr (horder hperm)⟩
    · have hold : (lastSymbol file oldSymbols (rawSymbolCanonicalId file s)).isSome :=
        lastOf_isSome_of_mem (rawSymbolCanonicalId file) hs
      rw [any_onOldId oldMap newMap hold]
      rcases surplus_cases hcounts (Nat.ne_of_gt hsurplus) with hdiffers | hnew | hnone
      · exact .inl hdiffers
      · exact .inr hnew
      · rw [hnone] at hold
        cases hold
    · right
      obtain ⟨renames, hrenames, hdiff⟩ := diffSymbols_spec oldMap newMap
      rw [hdiff, count_addedChange, List.countP_filter]
      refine List.countP_mono_left fun s' hs' hq => ?_
      rw [decide_eq_true_eq, Bool.eq_false_iff, ne_eq, any_onNewId, not_or] at hq
      obtain ⟨heq, hsurplus', hdiffers', hrenamed⟩ := hq
      have hnew : (lastSymbol file newSymbols (rawSymbolCanonicalId file s')).isSome :=
        lastOf_isSome_of_mem (rawSymbolCanonicalId file) hs'
      rw [Bool.and_eq_true, decide_eq_true_eq, decide_eq_true_eq]
      refine ⟨heq, ?_, fun r hr heq' => hrenamed ⟨r, hr, heq'⟩⟩
      rcases surplus_cases hcounts (Nat.ne_of_lt hsurplus') with hdiffers | hnone | hold
      · exact absurd hdiffers hdiffers'
      · rw [hnone] at hnew
        cases hnew
      · exact hold

/-- A file of a repository, with the hashes of the repository's key and of `f`. -/
def apiFile : FileId where
  truncatedHash text := if text = "github.com/acme/api" then "e1dcaa3496b9" else "252f10c83610"
  filePath := "src/a.ts"
  repoUrl := "https://github.com/acme/api"

/-- An overload of `f`. -/
def overload (signature : String) : RawSymbol where
  name := "f"
  kind := .function
  startLine := 1
  endLine := 1
  signature := signature
  contentHash := ""
  isEntryPoint := false
  entryPointKind := none
  visibility := .public
  typeInfo := none
  parentName := none
  scopeChain := none

/-- Removing the first of two overloads is not reported, and swapping them is. -/
theorem diffSymbols_loses_overload :
    (let old := [overload "f(a)", overload "f(a, b)"]
      let new := [overload "f(a, b)"]
      diffSymbols apiFile old new (.collect _ _) (.collect _ _) = [] ∧
        ¬Conserves apiFile old new
          (diffSymbols apiFile old new (.collect _ _) (.collect _ _))) ∧
      let old := [overload "f(a)", overload "f(a, b)"]
      let new := [overload "f(a, b)", overload "f(a)"]
      ¬Conserves apiFile old new (diffSymbols apiFile old new (.collect _ _) (.collect _ _)) := by
  refine ⟨⟨by decide +kernel, fun h => ?_⟩, fun h => ?_⟩
  · have hreported := h.removals (overload "f(a)") (by decide +kernel) (by decide +kernel)
    revert hreported
    decide +kernel
  · have hsilent := h.silence (by decide +kernel)
    revert hsilent
    decide +kernel

end AtomicChanges
end NestWeaver
