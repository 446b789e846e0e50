import NestWeaver.Engine.Publication.Selection

/-!
# What a prune removes

A slot is retained if the pointer names it, if an operation that has not ended has it for its target, or if
some journal cannot be read; every other slot goes, and a dry run reports the same.
-/

set_option linter.all false

namespace NestWeaver
namespace PublicationRoot

open Checked Transition

variable {υ β : Type} [DecidableEq υ] {crates : Crates υ β}

namespace Root

/-- Why a slot is needed. -/
def Retained (crates : Crates υ β) (root : Root υ β) (name : String) : Prop :=
  (∃ p ∈ root.current, p.publicationUuid = name ∨ p.expectedPreviousPublicationUuid = some name) ∨
  (∃ key ∈ root.operations, ∃ s, root.loadOperation crates (crates.text key) = .ok s ∧
    s.phase.isTerminal = false ∧ s.plan.targetPublicationUuid = name) ∨
  ∃ key ∈ root.operations, ∃ error, root.loadOperation crates (crates.text key) = .error error

variable {root root' : Root υ β} {name : String} {retained : List (String × String)}

lemma mem_readOperations {key : υ} {read : Except String PublicationOperationState} :
    (key, read) ∈ root.readOperations crates ↔
      key ∈ root.operations ∧ root.loadOperation crates (crates.text key) = read := by
  rw [readOperations, List.mem_map]
  constructor
  · rintro ⟨e, he, heq⟩
    obtain ⟨rfl, rfl⟩ := Prod.mk.inj heq
    exact ⟨AList.mem_keys.mpr (List.mem_map_of_mem he), rfl⟩
  · rintro ⟨hkey, rfl⟩
    obtain ⟨dir, hdir⟩ := Option.isSome_iff_exists.mp (AList.lookup_isSome.mpr hkey)
    exact ⟨⟨key, dir⟩, AList.mem_lookup_iff.mp hdir, rfl⟩

lemma mem_operations {s : PublicationOperationState} :
    s ∈ (root.listOperations crates).operations ↔
      ∃ key ∈ root.operations, root.loadOperation crates (crates.text key) = .ok s := by
  rw [listOperations, List.mem_mergeSort, List.mem_filterMap]
  constructor
  · rintro ⟨⟨key, read⟩, hmem, hread⟩
    obtain ⟨hkey, rfl⟩ := mem_readOperations.mp hmem
    refine ⟨key, hkey, ?_⟩
    cases hload : root.loadOperation crates (crates.text key) with
    | error e => simp [hload, Except.toOption] at hread
    | ok s' =>
      simp only [hload, Except.toOption, Option.some.injEq] at hread
      rw [hread]
  · rintro ⟨key, hkey, hload⟩
    exact ⟨(key, .ok s), mem_readOperations.mpr ⟨hkey, hload⟩, rfl⟩

lemma invalidOperations_eq_nil :
    (root.listOperations crates).invalidOperations.head? = none ↔
      ∀ key ∈ root.operations, ∀ error, root.loadOperation crates (crates.text key) ≠ .error error := by
  rw [List.head?_eq_none_iff, List.eq_nil_iff_forall_not_mem]
  constructor
  · intro h key hkey error hload
    refine h ⟨crates.text key, error⟩ ?_
    rw [listOperations, List.mem_mergeSort, List.mem_filterMap]
    exact ⟨(key, .error error), mem_readOperations.mpr ⟨hkey, hload⟩, rfl⟩
  · intro h invalid hmem
    rw [listOperations, List.mem_mergeSort, List.mem_filterMap] at hmem
    obtain ⟨⟨key, read⟩, hread, hinvalid⟩ := hmem
    obtain ⟨hkey, rfl⟩ := mem_readOperations.mp hread
    cases hload : root.loadOperation crates (crates.text key) with
    | error e => exact h key hkey e hload
    | ok s => simp [hload] at hinvalid

lemma mem_retainedSlots (hretained : root.retainedSlots crates = .ok retained) :
    (∃ reason, (name, reason) ∈ retained) ↔
      (∃ p ∈ root.current, p.publicationUuid = name ∨ p.expectedPreviousPublicationUuid = some name) ∨
      ∃ key ∈ root.operations, ∃ s, root.loadOperation crates (crates.text key) = .ok s ∧
        s.phase.isTerminal = false ∧ s.plan.targetPublicationUuid = name := by
  simp only [retainedSlots, bind_eq_ok, pure_eq_ok] at hretained
  obtain ⟨current, hread, rfl⟩ := hretained
  obtain rfl := readCurrent_eq_ok hread
  simp only [List.mem_append, exists_or]
  refine or_congr ?_ ?_
  · cases root.current with
    | none => simp
    | some p =>
      simp only [List.mem_cons, Prod.mk.injEq, List.mem_map, Option.mem_toList, exists_or,
        Option.mem_def, Option.some.injEq, exists_eq_left']
      refine or_congr ?_ ?_
      · constructor
        · rintro ⟨_, h, -⟩
          exact h.symm
        · exact fun h => ⟨_, h.symm, rfl⟩
      · constructor
        · rintro ⟨_, _, h, rfl, -⟩
          exact h
        · exact fun h => ⟨_, name, h, rfl, rfl⟩
  · simp only [List.mem_map, List.mem_filter, mem_operations, Prod.mk.injEq]
    constructor
    · rintro ⟨_, s, ⟨⟨key, hkey, hload⟩, hphase⟩, htarget, -⟩
      exact ⟨key, hkey, s, hload, by simpa using hphase, htarget⟩
    · rintro ⟨key, hkey, s, hload, hphase, htarget⟩
      exact ⟨_, s, ⟨⟨key, hkey, hload⟩, by simpa using hphase⟩, htarget, rfl⟩

/-- **A reason is given for the slots that are needed**, and for no others. -/
lemma retainedBecause_eq_none (hretained : root.retainedSlots crates = .ok retained) :
    root.retainedBecause crates retained name = none ↔ ¬root.Retained crates name := by
  have hlookup : retained.lookup name = none ↔ ¬∃ reason, (name, reason) ∈ retained := by
    rw [List.lookup_eq_none_iff]
    constructor
    · rintro h ⟨reason, hmem⟩
      simpa using h _ hmem
    · intro h e he
      rw [bne_iff_ne]
      rintro rfl
      exact h ⟨e.2, he⟩
  rw [retainedBecause, Option.or_eq_none_iff, Option.map_eq_none_iff, invalidOperations_eq_nil, hlookup,
    mem_retainedSlots hretained, Retained, ← or_assoc]
  refine (and_congr_right' ?_).trans not_or.symm
  simp only [not_exists, not_and, ne_eq]

lemma mem_reclaimable {names : List String} (h : root.reclaimable crates = .ok names) :
    name ∈ names ↔ name ∈ root.slots ∧ ¬root.Retained crates name := by
  simp only [reclaimable, bind_eq_ok, pure_eq_ok] at h
  obtain ⟨retained, hretained, rfl⟩ := h
  simp only [List.mem_map, List.mem_filter, dispositions, Option.isNone_iff_eq_none]
  constructor
  · rintro ⟨_, ⟨⟨e, he, rfl⟩, hnone⟩, rfl⟩
    exact ⟨AList.mem_keys.mpr (List.mem_map_of_mem he), (retainedBecause_eq_none hretained).mp hnone⟩
  · rintro ⟨hslot, hneeded⟩
    obtain ⟨slot, hlookup⟩ := Option.isSome_iff_exists.mp (AList.lookup_isSome.mpr hslot)
    exact ⟨_, ⟨⟨⟨name, slot⟩, AList.mem_lookup_iff.mp hlookup, rfl⟩,
      (retainedBecause_eq_none hretained).mpr hneeded⟩, rfl⟩

omit [DecidableEq υ] in
lemma lookup_removeSlots (root : Root υ β) (name : String) (names : List String) :
    (names.foldl removeSlot root).slots.lookup name =
        (if name ∈ names then none else root.slots.lookup name) ∧
      (names.foldl removeSlot root).current = root.current ∧
      (names.foldl removeSlot root).operations = root.operations := by
  induction names generalizing root with
  | nil => simp
  | cons first names ih =>
    obtain ⟨hlookup, hcurrent, hoperations⟩ := ih (root.removeSlot first)
    refine ⟨?_, hcurrent, hoperations⟩
    rw [List.foldl_cons, hlookup]
    by_cases hmem : name ∈ names
    · simp [hmem]
    · by_cases hname : name = first
      · subst hname
        simp [hmem, removeSlot, AList.lookup_erase]
      · simp [hmem, hname, removeSlot, AList.lookup_erase_ne hname]

/-- **A prune is exact.**  It removes the slots that nothing needs and no others, and touches neither the
pointer nor a journal; with an unreadable journal it removes nothing.  A dry run gives the same report, whose
slots without a reason are those that go and make up the bytes it counts. -/
theorem pruneSlots_exact {report : SlotPruneReport}
    (h : root.pruneSlots crates false = .ok (root', report)) :
    (∀ name slot, root'.slots.lookup name = some slot ↔
      root.slots.lookup name = some slot ∧ root.Retained crates name) ∧
    root'.current = root.current ∧ root'.operations = root.operations ∧
    root.pruneSlots crates true = .ok (root, { report with dryRun := true }) ∧
    (∀ name, (∃ d ∈ report.slots, d.publicationUuid = name ∧ d.retainedBecause = none) ↔
      name ∈ root.slots ∧ name ∉ root'.slots) ∧
    report.removedBytes =
      ((report.slots.filter (·.retainedBecause.isNone)).map (·.bytes)).sum := by
  simp only [pruneSlots, bind_eq_ok, pure_eq_ok, Prod.mk.injEq] at h
  obtain ⟨retained, hretained, names, hnames, hroot, rfl⟩ := h
  rw [if_neg (by decide)] at hroot
  subst hroot
  obtain ⟨-, hcurrent, hoperations⟩ := lookup_removeSlots root "" names
  have hlookup := fun name => (lookup_removeSlots root name names).1
  have hmem : ∀ name, name ∈ names ↔ name ∈ root.slots ∧ ¬root.Retained crates name :=
    fun name => mem_reclaimable hnames
  refine ⟨fun name slot => ?_, hcurrent, hoperations, ?_, fun name => ?_, ?_⟩
  · rw [hlookup]
    by_cases hname : name ∈ names
    · simp [hname, ((hmem name).mp hname).2]
    · rw [if_neg hname]
      refine ⟨fun hslot => ⟨hslot, ?_⟩, And.left⟩
      by_contra hneeded
      exact hname ((hmem name).mpr ⟨AList.lookup_isSome.mp (by rw [hslot]; rfl), hneeded⟩)
  · simp only [pruneSlots, hretained, hnames]
    rfl
  · have hgone : name ∈ root.slots ∧ name ∉ (names.foldl removeSlot root).slots ↔ name ∈ names := by
      rw [← AList.lookup_eq_none, hlookup]
      constructor
      · rintro ⟨hslot, hnone⟩
        refine (hmem name).mpr ⟨hslot, fun hneeded => ?_⟩
        rw [if_neg fun hname => ((hmem name).mp hname).2 hneeded, AList.lookup_eq_none] at hnone
        exact hnone hslot
      · exact fun hname => ⟨((hmem name).mp hname).1, if_pos hname⟩
    rw [hgone]
    simp only [reclaimable, hretained, List.mem_mergeSort] at hnames ⊢
    obtain rfl := Except.ok.inj hnames
    simp only [List.mem_map, List.mem_filter, Option.isNone_iff_eq_none]
    constructor
    · rintro ⟨d, hd, hname, hnone⟩
      exact ⟨d, ⟨hd, hnone⟩, hname⟩
    · rintro ⟨d, ⟨hd, hnone⟩, hname⟩
      exact ⟨d, hd, hname, hnone⟩
  · have hperm := List.mergeSort_perm (root.dispositions crates retained)
      fun a b => decide (a.publicationUuid ≤ b.publicationUuid)
    exact ((hperm.filter _).map _).symm.sum_nat

end Root

namespace Sample

lemma orphaned_eq : (orphaned.bind fun root => (root.pruneSlots Sample.crates false).toOption).map
    (fun r => (decide (text 3 ∈ r.1.slots), decide (text 5 ∈ r.1.slots))) = some (true, false) := by
  decide +kernel

end Sample

open Sample in
theorem pruneSlots_exact_orphaned : ∃ root root' report, orphaned = some root ∧
    root.pruneSlots Sample.crates false = .ok (root', report) ∧ root.Retained Sample.crates (text 3) ∧
    text 5 ∉ root'.slots ∧ root.pruneSlots Sample.crates true = .ok (root, { report with dryRun := true }) := by
  obtain ⟨⟨root', report⟩, hbind, hslots⟩ := Option.map_eq_some_iff.mp orphaned_eq
  obtain ⟨root, hroot, hprune⟩ := Option.bind_eq_some_iff.mp hbind
  have hpruned : root.pruneSlots Sample.crates false = .ok (root', report) := by
    cases hresult : root.pruneSlots Sample.crates false with
    | error e =>
      rw [hresult] at hprune
      cases hprune
    | ok r =>
      rw [hresult] at hprune
      rw [Option.some.inj hprune]
  obtain ⟨hkept, -, -, hdry, -⟩ := Root.pruneSlots_exact hpruned
  obtain ⟨hthree, hfive⟩ := Prod.mk.inj hslots
  obtain ⟨slot, hslot⟩ := Option.isSome_iff_exists.mp (AList.lookup_isSome.mpr (of_decide_eq_true hthree))
  exact ⟨root, root', report, hroot, hpruned, ((hkept _ slot).mp hslot).2, of_decide_eq_false hfive, hdry⟩

/-- The session of a prune does what the function does, if nothing comes in between. -/
lemma run_prune [DecidableEq β] {sys : System υ β} {root' : Root υ β} {report : Root.SlotPruneReport}
    (hidle : sys.session = some .idle) (h : sys.root.pruneSlots crates false = .ok (root', report)) :
    ∃ n, run (System.step crates) sys (.beginPrune :: List.replicate n .pruneSlot) =
      some (System.settle root') := by
  simp only [Root.pruneSlots, bind_eq_ok, pure_eq_ok, Prod.mk.injEq] at h
  obtain ⟨-, -, names, hnames, rfl, -⟩ := h
  have hbegin : sys.step crates .beginPrune = some ⟨sys.root, some (.pruning names)⟩ := by
    simp only [System.step, hidle, Option.bind_some, System.sessionStep, hnames, System.goOn]
  have hremove : ∀ (names : List String) (root : Root υ β),
      run (System.step crates) ⟨root, some (.pruning names)⟩ (List.replicate (names.length + 1) .pruneSlot) =
        some (System.settle (names.foldl Root.removeSlot root)) := by
    intro names
    induction names with
    | nil => exact fun root => rfl
    | cons name names ih => exact fun root => ih (root.removeSlot name)
  refine ⟨names.length + 1, ?_⟩
  rw [run, List.foldlM_cons, hbegin]
  exact hremove names sys.root

end PublicationRoot
end NestWeaver
