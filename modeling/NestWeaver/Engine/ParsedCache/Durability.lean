import NestWeaver.Engine.ParsedCache.Runs

/-!
# Refreshing, saving and appending over a run

A refresh finds what a load finds.  A save merges what the cache holds with what others have written since it was
loaded.  What is appended or saved is found from then on, until a cache that has seen it and dropped it is saved.
-/

set_option linter.all false

namespace NestWeaver
namespace ParseCache

open Transition

variable {ι E : Type} [DecidableEq ι] {codec : Codec E} {sys sys' : System ι E}
  {acts later : List (Action ι E)} {i : ι} {cache : ParsedCache E}

/-- Only a thread and its cache are concerned. -/
def Action.reads : Action ι E → Bool
  | .save _ _ | .append _ _ | .compact _ | .removeLog _ | .crash => false
  | _ => true

namespace System

/-! ## The effects of a step -/

/-- What a step does to the files. -/
inductive Effect (codec : Codec E) (sys : System ι E) : Action ι E → System ι E → Prop
  | read {a : Action ι E} {i : ι} {phase : Phase E} (ha : a.reads = true) : Effect codec sys a (sys.put i phase)
  | saved {i : ι} {cache : ParsedCache E} {outcome : Outcome} (hi : sys.phase i = .holding cache)
      (hwriter : sys.writer = none) :
      Effect codec sys (.save i outcome) (sys.replaceBase codec (cache.merged codec sys.files) outcome)
  | appended {entries : Entries E} {written : ℕ} (hwriter : sys.writer = none) :
      Effect codec sys (.append entries written) (sys.appendEntries codec entries written)
  | compacted {outcome : Outcome} (hwriter : sys.writer = some .compacting) :
      Effect codec sys (.compact outcome)
        (sys.replaceBase codec (ParsedCache.load codec sys.files).entries outcome)
  | removed {removed : Bool} (hwriter : sys.writer = some .removing) :
      Effect codec sys (.removeLog removed)
        ⟨{ sys.files with log := if removed then [] else sys.files.log }, none, none, sys.phase⟩
  | crashed : Effect codec sys .crash { sys with validLogLen := none, writer := none }

lemma effect_of_step {a : Action ι E} (h : sys.step codec a = some sys') : Effect codec sys a sys' := by
  cases a with
  | empty i | drop i =>
    obtain rfl := Option.some.inj h
    exact .read rfl
  | crash =>
    obtain rfl := Option.some.inj h
    exact .crashed
  | load i | readBase i | readLog i | refresh i | catchUp i | insert i contentHash result
  | retainHashes i liveHashes =>
    simp only [System.step] at h
    split at h
    · obtain rfl := Option.some.inj h
      exact .read rfl
    · cases h
  | save i outcome =>
    simp only [System.step] at h
    split at h
    · rename_i hi hwriter
      obtain rfl := Option.some.inj h
      exact .saved hi hwriter
    · cases h
  | append entries written =>
    simp only [System.step] at h
    split at h
    · rename_i hwriter
      obtain rfl := Option.some.inj h
      exact .appended hwriter
    · cases h
  | compact outcome =>
    simp only [System.step] at h
    split at h
    · rename_i hwriter
      obtain rfl := Option.some.inj h
      exact .compacted hwriter
    · cases h
  | removeLog removed =>
    simp only [System.step] at h
    split at h
    · rename_i hwriter
      obtain rfl := Option.some.inj h
      exact .removed hwriter
    · cases h

omit [DecidableEq ι] in
/-- The base is as it was, or holds the entries, behind the same log. -/
lemma replaceBase_cases (codec : Codec E) (sys : System ι E) (entries : Entries E) (outcome : Outcome) :
    (sys.replaceBase codec entries outcome).validLogLen = sys.validLogLen ∧
      (sys.replaceBase codec entries outcome).files.log = sys.files.log ∧
      (((sys.replaceBase codec entries outcome).files = sys.files ∧
          (sys.replaceBase codec entries outcome).writer = none) ∨
        ∀ hash, (readBase codec (sys.replaceBase codec entries outcome).files.base).lookup hash =
          entries.lookup hash) := by
  cases h : writeBase codec sys.files entries with
  | none => cases outcome <;> simp [replaceBase, h]
  | some files =>
    have hlog : files.log = sys.files.log := by
      obtain ⟨data, -, rfl⟩ := Option.map_eq_some_iff.mp h
      rfl
    have hlookup := lookup_readBase_writeBase h
    cases outcome with
    | unwritten => simp [replaceBase]
    | unreported | replaced => simp [replaceBase, h, hlog, hlookup]

/-! ## Appending -/

omit [DecidableEq ι] in
lemma appendEntries_spec (hknown : Known codec sys.files.log sys.validLogLen) (entries : Entries E)
    (written : ℕ) :
    Known codec (sys.appendEntries codec entries written).files.log
        (sys.appendEntries codec entries written).validLogLen ∧
      ∃ k, (∀ hash, found codec (sys.appendEntries codec entries written).files hash =
          (((logged codec entries).take k).reverse.lookup hash).or (found codec sys.files hash)) ∧
        ((logRecords codec entries).length ≤ written → (logged codec entries).length ≤ k) := by
  obtain ⟨k, hread, hwhole⟩ := exists_readLog_append hknown entries written
  by_cases hnil : logRecords codec entries = []
  · have hlogged : logged codec entries = [] := by
      exact logged_eq_nil hnil
    simp [appendEntries, hnil, hlogged, hknown]
  · refine ⟨?_, k, fun hash => ?_, fun hle => (hwhole hle).1⟩
    · by_cases hwritten : (logRecords codec entries).length ≤ written
      · simp only [appendEntries, if_neg hnil, if_pos hwritten]
        intro n hn
        obtain rfl := Option.some.inj hn
        exact ⟨rfl, (hwhole hwritten).2⟩
      · simp only [appendEntries, if_neg hnil, if_neg hwritten]
        intro n hn
        cases hn
    · have hfiles : (sys.appendEntries codec entries written).files = { sys.files with
          log := soundLog codec sys.files.log sys.validLogLen ++ (logRecords codec entries).take written } := by
        simp only [appendEntries, if_neg hnil]
        split_ifs <;> rfl
      rw [hfiles, found_eq, found_eq, hread, List.lookup_append, Option.or_assoc]

omit [DecidableEq ι] in
lemma known_initial : Known codec (initial : System ι E).files.log (initial : System ι E).validLogLen := by
  intro n hn
  cases hn

lemma known_step {a : Action ι E} (hknown : Known codec sys.files.log sys.validLogLen)
    (h : sys.step codec a = some sys') : Known codec sys'.files.log sys'.validLogLen := by
  cases effect_of_step h with
  | read => exact hknown
  | saved | compacted =>
    obtain ⟨hlen, hlog, -⟩ := sys.replaceBase_cases codec _ _
    rw [hlen, hlog]
    exact hknown
  | appended => exact (appendEntries_spec hknown _ _).1
  | removed | crashed =>
    intro n hn
    cases hn

lemma known_of_run (h : run (step codec) initial acts = some sys) :
    Known codec sys.files.log sys.validLogLen :=
  (steps_of_run h).invariant known_initial fun _ _ _ hu hstep => known_step hu hstep

/-- **An append is exact**, wherever it stops, and whatever torn tail the log had: the entries up to some one are
found over what was found before, and all of them if all was written. -/
theorem append_exact (h : run (step codec) initial acts = some sys) {entries : Entries E} {written : ℕ}
    (hstep : sys.step codec (.append entries written) = some sys') :
    ∃ k, (∀ hash, found codec sys'.files hash =
        (((logged codec entries).take k).reverse.lookup hash).or (found codec sys.files hash)) ∧
      ((logRecords codec entries).length ≤ written → (logged codec entries).length ≤ k) := by
  cases effect_of_step hstep with
  | read ha => cases ha
  | appended => exact (appendEntries_spec (known_of_run h) entries written).2

end System

namespace Sample

/-- Thread 0 loads the files, and of two records the second is torn. -/
def torn : List (Action (Fin 2) UInt8) :=
  [.load 0, .readBase 0, .readLog 0, .append [("a", 1), ("b", 2)] 9, .crash]

def again : Action (Fin 2) UInt8 := .append [("b", 3)] 6

lemma torn_eq : (result (torn ++ [again])).map (fun sys => found Sample.codec sys.files "a") = some (some 1) := by
  decide +kernel

end Sample

open Sample in
theorem append_exact_torn : ∃ sys sys', result torn = some sys ∧ sys.step Sample.codec again = some sys' ∧
    found Sample.codec sys'.files "b" = some 3 ∧
    found Sample.codec sys'.files "a" = found Sample.codec sys.files "a" := by
  obtain ⟨sys', hrun, -⟩ := Option.map_eq_some_iff.mp torn_eq
  obtain ⟨sys, hsys, hstep⟩ := run_concat_eq_some.mp hrun
  obtain ⟨k, hfound, hall⟩ := System.append_exact hsys hstep
  have hk : 1 ≤ k := hall (by decide)
  have hlogged : (logged Sample.codec [("b", 3)]).take k = [("b", 3)] := List.take_of_length_le hk
  refine ⟨sys, sys', hsys, hstep, ?_, ?_⟩
  · rw [hfound, hlogged]
    rfl
  · rw [hfound, hlogged]
    rfl

namespace System

lemma inv_of_run {reads : ι → Prop} (h : run (step codec) initial acts = some sys)
    (hquiet : Along (step codec) Quiet initial acts) (hreads : ∀ a ∈ acts, ∀ i ∈ a.edits, ¬reads i) :
    Inv codec reads sys :=
  hquiet.invariant h inv_initial fun _ _ a ha hu hok hstep => hu.step hok (hreads a ha) hstep

/-! ## Refreshing -/

/-- **A refresh finds what a load finds**, of a cache that is not changed in memory, whatever was written
meanwhile, and continues where a load would. -/
theorem refresh_agrees (h : run (step codec) initial acts = some sys)
    (hquiet : Along (step codec) Quiet initial acts) (hreads : ∀ a ∈ acts, a.edits ≠ some i)
    (hi : sys.phase i = .holding cache) :
    (∀ hash, (cache.refresh codec sys.files).get hash = found codec sys.files hash) ∧
      (cache.refresh codec sys.files).base = (ParsedCache.load codec sys.files).base ∧
      (cache.refresh codec sys.files).logOffset = (ParsedCache.load codec sys.files).logOffset := by
  have hinv : Inv codec (· = i) sys := by
    refine inv_of_run h hquiet fun a ha j hj hji => hreads a ha ?_
    rw [← hji]
    exact hj
  by_cases hstale : cache.stale sys.files
  · simp [ParsedCache.refresh, hstale, found]
  · have hbase : cache.base = sys.files.identity := by
      simp only [ParsedCache.stale, decide_eq_true_eq, not_or, not_not] at hstale
      exact hstale.1.symm
    obtain ⟨records, hrecords⟩ := (hinv.follows i).inStep cache (by rw [hi]; rfl) hbase
    have hread := readLog_of_upTo hrecords.upTo
    simp only [ParsedCache.refresh, if_neg hstale]
    refine ⟨fun hash => ?_, hbase, ?_⟩
    · rw [hrecords.found_eq, ← hrecords.same rfl hash]
      exact List.lookup_append
    · exact (congrArg Prod.snd hread).symm

end System

namespace Sample

lemma holding_eq : (result (torn ++ [again])).map (fun sys => (sys.phase 0).held?.isSome) = some true := by
  decide +kernel

lemma quiet_of_notMem {acts : List (Action (Fin 2) UInt8)} (h : .removeLog true ∉ acts)
    (sys : System (Fin 2) UInt8) : Along (System.step Sample.codec) System.Quiet sys acts := by
  rintro front a back u rfl - rfl
  exact absurd (List.mem_append_right _ List.mem_cons_self) h

end Sample

open Sample in
theorem refresh_agrees_torn : ∃ sys cache, result (torn ++ [again]) = some sys ∧
    sys.phase 0 = .holding cache ∧
    (cache.refresh Sample.codec sys.files).get "a" = some 1 := by
  obtain ⟨sys, hrun, hheld⟩ := Option.map_eq_some_iff.mp holding_eq
  obtain ⟨sys', hrun', hfound⟩ := Option.map_eq_some_iff.mp torn_eq
  obtain rfl := Option.some.inj (hrun.symm.trans hrun')
  obtain ⟨cache, hcache⟩ := Option.isSome_iff_exists.mp hheld
  have hi := Phase.held?_eq_some.mp hcache
  refine ⟨sys, cache, hrun, hi, ?_⟩
  rw [(System.refresh_agrees hrun (quiet_of_notMem (by simp [torn, again]) _)
    (by simp [torn, again, Action.edits]) hi).1, hfound]

namespace System

/-! ## Saving -/

omit [DecidableEq ι] in
lemma lookup_filter_fst (entries : Entries E) (p : String → Bool) (hash : String) :
    (entries.filter fun entry => p entry.1).lookup hash = if p hash then entries.lookup hash else none := by
  induction entries with
  | nil => simp
  | cons entry entries ih =>
    obtain ⟨key, value⟩ := entry
    by_cases hkey : hash = key
    · subst hkey
      cases hp : p hash with
      | false => simp [hp, ih]
      | true => simp [hp]
    · have hne : (hash == key) = false := beq_eq_false_iff_ne.mpr hkey
      cases hp : p key with
      | false => simp [hp, ih, List.lookup_cons, hne]
      | true => simp [hp, ih, List.lookup_cons, hne]

/-- What others have written since the cache was loaded, under what it holds. -/
def threeWay (codec : Codec E) (cache : ParsedCache E) (files : Files) (hash : String) : Option E :=
  (cache.get hash).or (if hash ∈ cache.loadedKeys then none else found codec files hash)

omit [DecidableEq ι] in
lemma lookup_merged {reads : ι → Prop} (hinv : Inv codec reads sys) (hi : sys.phase i = .holding cache)
    (hash : String) :
    (cache.merged codec sys.files).lookup hash = threeWay codec cache sys.files hash := by
  have hnewer : (cache.newer codec sys.files).lookup hash = if cache.keeps hash then
      found codec sys.files hash else none := by
    rw [ParsedCache.newer, lookup_filter_fst]
    by_cases hkeeps : cache.keeps hash = true
    · rw [if_pos hkeeps, if_pos hkeeps]
      by_cases hstale : cache.stale sys.files
      · rw [if_pos hstale]
        rfl
      · have hbase : cache.base = sys.files.identity := by
          simp only [ParsedCache.stale, decide_eq_true_eq, not_or, not_not] at hstale
          exact hstale.1.symm
        obtain ⟨records, hrecords⟩ := (hinv.follows i).inStep cache (by rw [hi]; rfl) hbase
        have hunseen : (applied codec sys.files records).lookup hash = none := by
          by_contra hsome
          exact (of_decide_eq_true hkeeps).1 (hrecords.seen hash (Option.isSome_iff_ne_none.mpr hsome))
        rw [if_neg hstale, hrecords.found_eq, hunseen, Option.or_none]
    · rw [if_neg hkeeps, if_neg hkeeps]
  rw [ParsedCache.merged, List.lookup_append, hnewer, threeWay]
  cases hget : cache.get hash with
  | none =>
    have hkey : hash ∉ cache.entries.map Prod.fst := by
      rw [mem_map_fst, Option.not_isSome_iff_eq_none]
      exact hget
    have hkeeps : cache.keeps hash = true ↔ hash ∉ cache.loadedKeys := by
      simp [ParsedCache.keeps, hkey]
    have hnone : cache.entries.lookup hash = none := hget
    by_cases hloaded : hash ∈ cache.loadedKeys
    · simp [hkeeps, hloaded, hnone]
    · simp [hkeeps, hloaded, hnone]
  | some e =>
    have hsome : cache.entries.lookup hash = some e := hget
    have hkey : hash ∈ cache.entries.map Prod.fst := mem_map_fst.mpr (Option.isSome_of_eq_some hsome)
    have hkeeps : ¬cache.keeps hash = true := fun h => (of_decide_eq_true h).2 hkey
    simp [hkeeps, hsome]

omit [DecidableEq ι] in
lemma replaceBase_replaced {entries : Entries E}
    (h : (sys.replaceBase codec entries .replaced).writer = some .removing) :
    ∀ hash, (readBase codec (sys.replaceBase codec entries .replaced).files.base).lookup hash =
      entries.lookup hash := by
  obtain ⟨-, -, hsame | hbase⟩ := sys.replaceBase_cases codec entries .replaced
  · rw [hsame.2] at h
    cases h
  · exact hbase

lemma saved_eq (hi : sys.phase i = .holding cache) {outcome : Outcome} {saved : System ι E}
    (hsave : sys.step codec (.save i outcome) = some saved) :
    saved = sys.replaceBase codec (cache.merged codec sys.files) outcome := by
  simp only [System.step, hi] at hsave
  split at hsave
  · rename_i cache' _ hcache _
    obtain rfl := Phase.holding.inj hcache
    exact (Option.some.inj hsave).symm
  · cases hsave

/-- **A save merges**: for each hash the entry of the cache; none if it was seen and dropped; and else what is
found now, by whomever it was written.  Until the log is removed, what it holds is found over that. -/
theorem save_merges (h : run (step codec) initial acts = some sys)
    (hquiet : Along (step codec) Quiet initial acts) (hi : sys.phase i = .holding cache) {saved : System ι E}
    (hsave : sys.step codec (.save i .replaced) = some saved) (hwriter : saved.writer = some .removing) :
    (∀ hash, found codec saved.files hash =
      ((readLog codec sys.files.log 0).1.lookup hash).or (threeWay codec cache sys.files hash)) ∧
    ∀ sys', saved.step codec (.removeLog true) = some sys' →
      ∀ hash, found codec sys'.files hash = threeWay codec cache sys.files hash := by
  have hinv : Inv codec (fun _ => False) sys := inv_of_run h hquiet fun _ _ _ _ => id
  obtain rfl := saved_eq hi hsave
  have hbase (hash : String) := (replaceBase_replaced hwriter hash).trans (lookup_merged hinv hi hash)
  obtain ⟨-, hlog, -⟩ := sys.replaceBase_cases codec (cache.merged codec sys.files) .replaced
  refine ⟨fun hash => by rw [found_eq, hlog, hbase], fun sys' hremove hash => ?_⟩
  simp only [System.step, hwriter] at hremove
  obtain rfl := Option.some.inj hremove
  rw [found_eq, hbase]
  rfl

end System

namespace Sample

/-- Thread 0 has not seen the record of another writer when it is saved. -/
def merging : List (Action (Fin 2) UInt8) :=
  [.load 0, .readBase 0, .readLog 0, .append [("a", 1)] 6, .insert 0 "b" 2]

lemma merging_eq : (result (merging ++ [Action.save 0 .replaced])).map (fun sys => sys.writer) =
    some (some .removing) := by
  decide +kernel

lemma merging_held_eq : (result merging).map (fun sys => (sys.phase 0).held?.map fun cache =>
    (System.threeWay Sample.codec cache sys.files "a", System.threeWay Sample.codec cache sys.files "b")) =
      some (some (some 1, some 2)) := by
  decide +kernel

end Sample

open Sample in
theorem save_merges_unseen : ∃ sys sys', result (merging ++ [Action.save 0 .replaced]) = some sys ∧
    sys.step Sample.codec (.removeLog true) = some sys' ∧ found Sample.codec sys'.files "a" = some 1 ∧
    found Sample.codec sys'.files "b" = some 2 := by
  obtain ⟨saved, hrun, hwriter⟩ := Option.map_eq_some_iff.mp merging_eq
  obtain ⟨sys, hsys, hsave⟩ := run_concat_eq_some.mp hrun
  obtain ⟨sys₀, hsys₀, hheld⟩ := Option.map_eq_some_iff.mp merging_held_eq
  obtain rfl := Option.some.inj (hsys.symm.trans hsys₀)
  obtain ⟨cache, hcache, hmerged⟩ := Option.map_eq_some_iff.mp hheld
  obtain ⟨ha, hb⟩ := Prod.mk.inj hmerged
  obtain ⟨-, hremoved⟩ := System.save_merges hsys (quiet_of_notMem (by simp [merging]) _)
    (Phase.held?_eq_some.mp hcache) hsave hwriter
  obtain ⟨sys', hremove⟩ : ∃ sys', saved.step Sample.codec (.removeLog true) = some sys' := by
    simp [System.step, hwriter]
  exact ⟨saved, sys', hrun, hremove, (hremoved sys' hremove "a").trans ha,
    (hremoved sys' hremove "b").trans hb⟩

namespace System

/-! ## Until an eviction -/

/-- The hash is found, and the base has it when the log is about to go. -/
structure Stored (codec : Codec E) (hash : String) (sys : System ι E) : Prop where
  found : (found codec sys.files hash).isSome
  base : sys.writer = some .removing → ((readBase codec sys.files.base).lookup hash).isSome

/-- No cache is saved that has seen the hash and dropped it. -/
def KeepsHash (hash : String) (sys : System ι E) (a : Action ι E) : Prop :=
  ∀ i outcome cache, a = .save i outcome → sys.phase i = .holding cache → hash ∈ cache.loadedKeys →
    (cache.get hash).isSome

omit [DecidableEq ι] in
lemma stored_replaceBase {hash : String} {entries : Entries E} {outcome : Outcome}
    (hstored : Stored codec hash sys) (hentries : (entries.lookup hash).isSome) :
    Stored codec hash (sys.replaceBase codec entries outcome) := by
  obtain ⟨-, hlog, hsame | hbase⟩ := sys.replaceBase_cases codec entries outcome
  · refine ⟨?_, fun hwriter => ?_⟩
    · rw [hsame.1]
      exact hstored.found
    · rw [hsame.2] at hwriter
      cases hwriter
  · refine ⟨?_, fun _ => ?_⟩
    · rw [found_eq, hbase, Option.isSome_or, hentries, Bool.or_true]
    · rw [hbase]
      exact hentries

omit [DecidableEq ι] in
lemma appendEntries_writer (hwriter : sys.writer = none) (entries : Entries E) (written : ℕ) :
    (sys.appendEntries codec entries written).writer ≠ some .removing := by
  simp only [appendEntries]
  split_ifs <;> simp [hwriter]

lemma stored_step {reads : ι → Prop} {hash : String} {a : Action ι E} (hinv : Inv codec reads sys)
    (hkeeps : KeepsHash hash sys a) (hstored : Stored codec hash sys) (h : sys.step codec a = some sys') :
    Stored codec hash sys' := by
  cases effect_of_step h with
  | read => exact ⟨hstored.found, hstored.base⟩
  | saved hi hwriter =>
    rename_i i cache outcome
    refine stored_replaceBase hstored ?_
    rw [lookup_merged hinv hi, threeWay, Option.isSome_or]
    by_cases hloaded : hash ∈ cache.loadedKeys
    · rw [hkeeps i outcome cache rfl hi hloaded, Bool.true_or]
    · rw [if_neg hloaded, hstored.found, Bool.or_true]
  | appended hwriter =>
    obtain ⟨-, k, hfound, -⟩ := appendEntries_spec hinv.known _ _
    refine ⟨?_, fun hremoving => absurd hremoving (appendEntries_writer hwriter _ _)⟩
    rw [hfound, Option.isSome_or, hstored.found, Bool.or_true]
  | compacted => exact stored_replaceBase hstored hstored.found
  | removed hwriter =>
    refine ⟨?_, fun hremoving => (by cases hremoving)⟩
    rw [found_eq, Option.isSome_or, hstored.base hwriter, Bool.or_true]
  | crashed => exact ⟨hstored.found, fun hremoving => (by cases hremoving)⟩

lemma stored_of_run {hash : String} (hinv : Inv codec (fun _ => False) sys) (hstored : Stored codec hash sys)
    (hrun : run (step codec) sys later = some sys')
    (hlater : Along (step codec) (fun s a => Quiet s a ∧ KeepsHash hash s a) sys later) :
    Stored codec hash sys' := by
  have hboth := hlater.invariant (P := fun s => Inv codec (fun _ => False) s ∧ Stored codec hash s) hrun
    ⟨hinv, hstored⟩ fun u u' a _ hu hok hstep =>
      ⟨hu.1.step hok.1 (fun _ _ => id) hstep, stored_step hu.1 hok.2 hu.2 hstep⟩
  exact hboth.2

end System

namespace Sample

def loading : List (Action (Fin 2) UInt8) := [.load 0, .readBase 0, .readLog 0]

def appendA : Action (Fin 2) UInt8 := .append [("a", 1)] 6

/-- The cache was loaded before the append. -/
def saving : List (Action (Fin 2) UInt8) :=
  [.save 0 .replaced, .crash, .append [("b", 2)] 3, .crash, .append [("b", 3)] 6]

lemma saving_eq : (result (loading ++ [appendA] ++ saving)).isSome = true := by
  decide +kernel

lemma loadedKeys_eq : (result (loading ++ [appendA])).map (fun sys =>
    (sys.phase 0).held?.map ParsedCache.loadedKeys) = some (some []) := by
  decide +kernel

lemma keepsHash_of_notMem {acts : List (Action (Fin 2) UInt8)} (h : .removeLog true ∉ acts)
    (h' : ∀ i outcome, .save i outcome ∉ acts) (hash : String) (sys : System (Fin 2) UInt8) :
    Along (System.step Sample.codec) (fun s a => System.Quiet s a ∧ System.KeepsHash hash s a) sys acts := by
  intro front a back u heq hrun
  refine ⟨quiet_of_notMem h sys front a back u heq hrun, ?_⟩
  rintro i outcome cache rfl
  rw [heq] at h'
  exact absurd (List.mem_append_right _ List.mem_cons_self) (h' i outcome)

lemma keepsHash_saving {sys : System (Fin 2) UInt8} (h : result (loading ++ [appendA]) = some sys) :
    Along (System.step Sample.codec) (fun s a => System.Quiet s a ∧ System.KeepsHash "a" s a) sys saving := by
  refine Along.cons ⟨fun ha => (by cases ha), fun i outcome cache ha hi hloaded => ?_⟩ fun u _ => ?_
  · obtain ⟨rfl, -⟩ := Action.save.inj ha
    obtain ⟨sys', hsys', hkeys⟩ := Option.map_eq_some_iff.mp loadedKeys_eq
    obtain rfl := Option.some.inj (h.symm.trans hsys')
    rw [hi] at hkeys
    have hnil : cache.loadedKeys = [] := Option.some.inj hkeys
    rw [hnil] at hloaded
    cases hloaded
  · exact keepsHash_of_notMem (by simp) (by simp) _ u

end Sample

namespace Sample

/-- The writer ends before it removes the log, and another record hides what was saved. -/
def overwritten : List (Action (Fin 2) UInt8) := [.crash, .append [("b", 3)] 6, .load 1]

lemma overwritten_eq : (result (merging ++ [Action.save 0 .replaced] ++ overwritten)).isSome = true := by
  decide +kernel

lemma merging_get_eq : (result merging).map (fun sys => (sys.phase 0).held?.map fun cache => cache.get "b") =
    some (some (some 2)) := by
  decide +kernel

end Sample

end ParseCache
end NestWeaver
