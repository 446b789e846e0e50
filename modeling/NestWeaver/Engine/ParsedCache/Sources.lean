import NestWeaver.Engine.ParsedCache.Durability

/-!
# Where entries come from

What is found under a hash was inserted into some cache, or appended, under that hash.  A reader that follows a log
must be at the end of a record: it is as long as the base has not been replaced since it compared the files with
its cache.
-/

set_option linter.all false

namespace NestWeaver
namespace ParseCache

open Transition

variable {ι E : Type} {codec : Codec E} {P : String → E → Prop}

/-! ## What is found in entries -/

def AllFound (P : String → E → Prop) (entries : Entries E) : Prop :=
  ∀ hash e, entries.lookup hash = some e → P hash e

namespace AllFound

variable {entries entries' : Entries E}

lemma nil : AllFound P ([] : Entries E) := fun _ _ h => by cases h

lemma of_mem (h : ∀ entry ∈ entries, P entry.1 entry.2) : AllFound P entries := by
  intro hash e hlookup
  obtain ⟨front, back, rfl, -⟩ := List.lookup_eq_some_iff.mp hlookup
  exact h (hash, e) (List.mem_append_right _ List.mem_cons_self)

lemma append (h : AllFound P entries) (h' : AllFound P entries') : AllFound P (entries ++ entries') := by
  intro hash e hlookup
  rw [List.lookup_append, Option.or_eq_some_iff] at hlookup
  obtain hfront | ⟨-, hback⟩ := hlookup
  · exact h hash e hfront
  · exact h' hash e hback

/-- The first entries are found before the others. -/
lemma of_append (h : AllFound P (entries ++ entries')) : AllFound P entries := by
  intro hash e hlookup
  refine h hash e ?_
  rw [List.lookup_append, hlookup, Option.some_or]

lemma filter (h : AllFound P entries) (p : String → Bool) :
    AllFound P (entries.filter fun entry => p entry.1) := by
  intro hash e hlookup
  rw [System.lookup_filter_fst] at hlookup
  exact h hash e (Option.ite_none_right_eq_some.mp hlookup).2

/-- A reader at the end of a record. -/
lemma readLog {log : Bytes} {offset : ℕ} {records : List (LogRecord E)}
    (h : AllFound P (readLog codec log 0).1) (hupTo : UpTo codec log offset records) :
    AllFound P (ParseCache.readLog codec log offset).1 := by
  rw [readLog_of_upTo hupTo] at h
  exact h.of_append

end AllFound

/-! ## The entries of a state -/

def Phase.entries : Phase E → Entries E
  | absent | loading _ => []
  | readingLog _ entries => entries
  | holding cache | catchingUp cache => cache.entries

/-- What an action brings in. -/
def Action.enters : Action ι E → Entries E
  | .insert _ contentHash result => [(contentHash, result)]
  | .append entries _ => entries
  | _ => []

namespace System

variable {sys sys' : System ι E} {i : ι} {reads : ι → Prop}

/-- No base is replaced between the comparison of a refresh and its reading. -/
def InTime (sys : System ι E) (a : Action ι E) : Prop :=
  ∀ i cache, a = .catchUp i → sys.phase i = .catchingUp cache → cache.base = sys.files.identity

structure Entered (codec : Codec E) (P : String → E → Prop) (sys : System ι E) : Prop where
  base : AllFound P (readBase codec sys.files.base)
  log : AllFound P (readLog codec sys.files.log 0).1
  phase : ∀ i, AllFound P (sys.phase i).entries

lemma entered_initial : Entered codec P (initial : System ι E) where
  base := .nil
  log := .nil
  phase _ := .nil

lemma Entered.loaded (h : Entered codec P sys) : AllFound P (ParsedCache.load codec sys.files).entries :=
  h.log.append h.base

lemma replaceBase_phase (entries : Entries E) (outcome : Outcome) :
    (sys.replaceBase codec entries outcome).phase = sys.phase := by
  cases outcome with
  | unwritten | unreported => rfl
  | replaced =>
    simp only [replaceBase]
    split <;> rfl

lemma Entered.replaceBase (h : Entered codec P sys) {entries : Entries E} (hentries : AllFound P entries)
    (outcome : Outcome) : Entered codec P (sys.replaceBase codec entries outcome) := by
  obtain ⟨-, hlog, hsame | hbase⟩ := sys.replaceBase_cases codec entries outcome
  · refine ⟨?_, ?_, ?_⟩
    · rw [hsame.1]
      exact h.base
    · rw [hsame.1]
      exact h.log
    · rw [replaceBase_phase]
      exact h.phase
  · refine ⟨fun hash e hlookup => ?_, ?_, ?_⟩
    · rw [hbase] at hlookup
      exact hentries hash e hlookup
    · rw [hlog]
      exact h.log
    · rw [replaceBase_phase]
      exact h.phase

lemma Entered.appendEntries (h : Entered codec P sys) (hinv : Inv codec reads sys) {entries : Entries E}
    (hentries : ∀ entry ∈ entries, P entry.1 entry.2) (written : ℕ) :
    Entered codec P (sys.appendEntries codec entries written) := by
  obtain ⟨k, hread, -⟩ := exists_readLog_append hinv.known entries written
  have hlog : AllFound P (readLog codec (soundLog codec sys.files.log sys.validLogLen ++
      (logRecords codec entries).take written) 0).1 := by
    rw [hread]
    refine AllFound.append (.of_mem fun entry hentry => hentries entry ?_) h.log
    exact List.mem_of_mem_filter (List.mem_of_mem_take (List.mem_reverse.mp hentry))
  simp only [System.appendEntries]
  split_ifs
  · exact h
  all_goals exact ⟨h.base, hlog, h.phase⟩

/-- A cache of this base reads the log from the end of a record. -/
lemma Entered.readLog (h : Entered codec P sys) (hinv : Inv codec reads sys) {cache : ParsedCache E}
    (hcache : (sys.phase i).cache? = some cache) (hbase : cache.base = sys.files.identity) :
    AllFound P (ParseCache.readLog codec sys.files.log cache.logOffset).1 := by
  obtain ⟨records, hrecords⟩ := (hinv.follows i).inStep cache hcache hbase
  exact h.log.readLog hrecords.upTo

lemma Entered.merged (h : Entered codec P sys) (hinv : Inv codec reads sys) {cache : ParsedCache E}
    (hi : sys.phase i = .holding cache) : AllFound P (cache.merged codec sys.files) := by
  have hcache : AllFound P (Phase.holding cache).entries := hi ▸ h.phase i
  refine AllFound.append (AllFound.filter ?_ cache.keeps) hcache
  by_cases hstale : cache.stale sys.files
  · rw [if_pos hstale]
    exact h.loaded
  · rw [if_neg hstale]
    simp only [ParsedCache.stale, decide_eq_true_eq, not_or, not_not] at hstale
    exact h.readLog hinv (by rw [hi]; rfl) hstale.1.symm

variable [DecidableEq ι]

lemma Entered.put (h : Entered codec P sys) {phase : Phase E} (hphase : AllFound P phase.entries) :
    Entered codec P (sys.put i phase) where
  base := h.base
  log := h.log
  phase j := by
    by_cases hj : j = i
    · subst hj
      simpa [System.put] using hphase
    · simpa [System.put, hj] using h.phase j

/-- **No action makes up an entry.** -/
lemma Entered.step {a : Action ι E} (h : Entered codec P sys) (hinv : Inv codec reads sys) (htime : InTime sys a)
    (henters : ∀ entry ∈ a.enters, P entry.1 entry.2) (hstep : sys.step codec a = some sys') :
    Entered codec P sys' := by
  have hphase (i : ι) {phase : Phase E} (hi : sys.phase i = phase) : AllFound P phase.entries := hi ▸ h.phase i
  cases a with
  | empty i | drop i =>
    obtain rfl := Option.some.inj hstep
    exact h.put .nil
  | load i =>
    simp only [System.step] at hstep
    split at hstep
    · obtain rfl := Option.some.inj hstep
      exact h.put .nil
    · cases hstep
  | readBase i =>
    simp only [System.step] at hstep
    split at hstep
    · obtain rfl := Option.some.inj hstep
      exact h.put h.base
    · cases hstep
  | readLog i =>
    simp only [System.step] at hstep
    split at hstep
    · rename_i hi
      obtain rfl := Option.some.inj hstep
      exact h.put (h.log.append (hphase i hi))
    · cases hstep
  | refresh i =>
    simp only [System.step] at hstep
    split at hstep
    · rename_i hi
      obtain rfl := Option.some.inj hstep
      have hcache := hphase i hi
      split_ifs
      · exact h.put .nil
      · exact h.put hcache
    · cases hstep
  | catchUp i =>
    simp only [System.step] at hstep
    split at hstep
    · rename_i cache hi
      obtain rfl := Option.some.inj hstep
      have hread := h.readLog hinv (i := i) (by rw [hi]; rfl) (htime i cache rfl hi)
      exact h.put (hread.append (hphase i hi))
    · cases hstep
  | insert i contentHash result =>
    simp only [System.step] at hstep
    split at hstep
    · rename_i hi
      obtain rfl := Option.some.inj hstep
      exact h.put (AllFound.append (.of_mem henters) (hphase i hi))
    · cases hstep
  | retainHashes i liveHashes =>
    simp only [System.step] at hstep
    split at hstep
    · rename_i hi
      obtain rfl := Option.some.inj hstep
      exact h.put ((hphase i hi).filter fun hash => hash ∈ liveHashes)
    · cases hstep
  | save i outcome =>
    cases effect_of_step hstep with
    | read ha => cases ha
    | saved hi => exact h.replaceBase (h.merged hinv hi) outcome
  | append entries written =>
    cases effect_of_step hstep with
    | read ha => cases ha
    | appended => exact h.appendEntries hinv henters written
  | compact outcome =>
    cases effect_of_step hstep with
    | read ha => cases ha
    | compacted => exact h.replaceBase h.loaded outcome
  | removeLog removed =>
    cases effect_of_step hstep with
    | read ha => cases ha
    | removed =>
      cases removed with
      | false => exact ⟨h.base, h.log, h.phase⟩
      | true => exact ⟨h.base, .nil, h.phase⟩
  | crash =>
    obtain rfl := Option.some.inj hstep
    exact ⟨h.base, h.log, h.phase⟩

variable {acts : List (Action ι E)} {hash : String} {e : E}

/-- **Nothing is invented**: what a load finds under a hash, and what a cache holds under it, was brought in under
this hash. -/
theorem found_entered (h : run (step codec) initial acts = some sys)
    (hcalm : Along (step codec) (fun s a => Quiet s a ∧ InTime s a) initial acts)
    (hfound : found codec sys.files hash = some e ∨
      ∃ i cache, sys.phase i = .holding cache ∧ cache.get hash = some e) :
    ∃ a ∈ acts, (hash, e) ∈ a.enters := by
  have hentered := hcalm.invariant (P := fun s => Inv codec (fun _ => False) s ∧
      Entered codec (fun hash e => ∃ a ∈ acts, (hash, e) ∈ a.enters) s) h ⟨inv_initial, entered_initial⟩
    fun u u' a ha hu hok hstep => ⟨hu.1.step hok.1 (fun _ _ => id) hstep,
      hu.2.step hu.1 hok.2 (fun _ hentry => ⟨a, ha, hentry⟩) hstep⟩
  obtain hload | ⟨i, cache, hi, hget⟩ := hfound
  · exact hentered.2.loaded hash e hload
  · exact (hi ▸ hentered.2.phase i : AllFound _ (Phase.holding cache).entries) hash e hget

end System

namespace Sample

lemma calm_of_notMem {acts : List (Action (Fin 2) UInt8)} (h : .removeLog true ∉ acts)
    (h' : ∀ i, .catchUp i ∉ acts) (sys : System (Fin 2) UInt8) :
    Along (System.step Sample.codec) (fun s a => System.Quiet s a ∧ System.InTime s a) sys acts := by
  intro front a back u heq hrun
  refine ⟨quiet_of_notMem h sys front a back u heq hrun, ?_⟩
  rintro i cache rfl -
  rw [heq] at h'
  exact absurd (List.mem_append_right _ List.mem_cons_self) (h' i)

end Sample

open Sample in
theorem found_entered_torn : ∃ a ∈ torn ++ [again], ("a", 1) ∈ a.enters := by
  obtain ⟨sys, hrun, hfound⟩ := Option.map_eq_some_iff.mp torn_eq
  exact System.found_entered hrun (calm_of_notMem (by simp [torn, again]) (by simp [torn, again]) _)
    (.inl hfound)

end ParseCache
end NestWeaver
