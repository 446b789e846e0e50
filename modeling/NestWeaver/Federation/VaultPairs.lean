import Mathlib.Data.Finset.Dedup
import Mathlib.Data.Finset.Card
import NestWeaver.Framework.Iteration
import NestWeaver.Framework.MapOrder
import NestWeaver.Framework.Relocation
import NestWeaver.Schema.Uid

/-!
# Vaults of two tiers

`reconcile_vault_pairs_with_mappings` of `crates/nestweaver-federation/src/dedup.rs`: the keys of the
server's rows are moved into local vaults along the bindings of an operator.  A mapping is given by its
entries in the order in which they are visited, and so are the sets of vaults.

A round of the rejection loop is a round of `Relocation`, on the vaults of the server
(`settles_accept`).
-/

set_option linter.all false

namespace NestWeaver
namespace Federation

open Uid

/-- Equality of keys in the source is equality of `key` alone. -/
structure EntityKey where
  key : String
  canonical : Bool
  family : String
  vault : Option String
  rest : String
  deriving DecidableEq, Repr

namespace EntityKey

/-- Rebuild `key` from `vault`. -/
def requalify (k : EntityKey) : EntityKey :=
  match k.vault with
  | some vault => { k with key := k.family ++ ":vlt:" ++ vault ++ ":" ++ k.rest }
  | none => k

/-- The key in the vault that its own one is moved to. -/
def moved (accepted : String → Option String) (k : EntityKey) : EntityKey :=
  match k.vault.bind accepted with
  | some target => { k with vault := some target }.requalify
  | none => k

end EntityKey

/-- The vaults of a binding, if it is one of vaults. -/
def vaultPair (mapping : String × String) : Option (String × String) :=
  match parseCanonicalEntityUid mapping.1, parseCanonicalEntityUid mapping.2 with
  | some (.vault li l), some (.vault si s) => some (li ++ ":" ++ l, si ++ ":" ++ s)
  | _, _ => none

/-- The server vaults that a local one is bound to. -/
def byLocal (pairs : List (String × String)) (l : String) : Finset String :=
  ((pairs.filter (·.1 = l)).map (·.2)).toFinset

/-- The local vaults that a server vault is bound to. -/
def byServer (pairs : List (String × String)) (s : String) : Finset String :=
  ((pairs.filter (·.2 = s)).map (·.1)).toFinset

/-- The local vault of a server vault, by the pairs that are one to one. -/
def aliases (pairs : List (String × String)) (server : String) : Option String :=
  (lastOf Prod.snd (pairs.filter fun (l, s) => (byLocal pairs l).card = 1 ∧ (byServer pairs s).card = 1)
    server).map Prod.fst

/-- The vaults that occur in some rows. -/
def vaults (rows : List EntityKey) : List String := (rows.filterMap (·.vault)).dedup

/-! ## The rejection loop -/

/-- For each target the sources that go there. -/
def destinations (accepted : String → Option String) (sources : List String) :
    String → List String :=
  sources.foldl (fun destinations source =>
    let target := (accepted source).getD source
    Function.update destinations target (destinations target ++ [source])) fun _ => []

/-- The sources that are bound to a target where others go. -/
def rejected (order : Iteration) (accepted : String → Option String) (sources : List String) :
    List String :=
  let targets := (sources.map fun source => (accepted source).getD source).dedup
  ((((order.visit targets).map (destinations accepted sources)).filter (1 < ·.length)).flatten).filter
    fun source => (accepted source).isSome

variable {accepted : String → Option String} {sources vs : List String} {source target : String}

lemma destinations_eq (accepted : String → Option String) (sources : List String) (target : String) :
    destinations accepted sources target =
      sources.filter fun source => Relocation.dest accepted source = target := by
  induction sources using List.reverseRecOn with
  | nil => rfl
  | append_singleton sources source ih =>
    have hstep : destinations accepted (sources ++ [source]) =
        Function.update (destinations accepted sources) (Relocation.dest accepted source)
          (destinations accepted sources (Relocation.dest accepted source) ++ [source]) := by
      rw [destinations, List.foldl_append]
      rfl
    rw [hstep, List.filter_append]
    by_cases htarget : Relocation.dest accepted source = target
    · subst htarget
      simp [ih]
    · simp [Function.update_of_ne (Ne.symm htarget), ih, htarget]

/-- Of distinct elements some two have the property if there is one besides this. -/
lemma one_lt_length_filter {p : String → Bool} (hnodup : sources.Nodup) (hsource : source ∈ sources)
    (hp : p source = true) :
    1 < (sources.filter p).length ↔ ∃ other ∈ sources, other ≠ source ∧ p other = true := by
  have hmem : source ∈ sources.filter p := List.mem_filter.mpr ⟨hsource, hp⟩
  have herase := List.length_erase_of_mem hmem
  have hpos := List.length_pos_of_mem hmem
  constructor
  · intro hlt
    have hlen : 0 < ((sources.filter p).erase source).length := by omega
    obtain ⟨other, hother⟩ := List.exists_mem_of_length_pos hlen
    obtain ⟨hne, hmem⟩ := ((hnodup.filter p).mem_erase_iff).mp hother
    obtain ⟨hother, hpother⟩ := List.mem_filter.mp hmem
    exact ⟨other, hother, hne, hpother⟩
  · rintro ⟨other, hother, hne, hpother⟩
    have hmem : other ∈ (sources.filter p).erase source :=
      ((hnodup.filter p).mem_erase_iff).mpr ⟨hne, List.mem_filter.mpr ⟨hother, hpother⟩⟩
    have := List.length_pos_of_mem hmem
    omega

lemma mem_rejected {order : Iteration} (hnodup : sources.Nodup) :
    source ∈ rejected order accepted sources ↔
      source ∈ sources ∧ Relocation.Meets sources.toFinset accepted source ∧
        (accepted source).isSome = true := by
  have hmem : source ∈ rejected order accepted sources ↔
      source ∈ sources ∧ 1 < (sources.filter fun other =>
        Relocation.dest accepted other = Relocation.dest accepted source).length ∧
          (accepted source).isSome = true := by
    simp only [rejected, List.mem_filter, List.mem_flatten, List.mem_map, Iteration.mem_visit,
      List.mem_dedup, destinations_eq, decide_eq_true_eq]
    constructor
    · rintro ⟨⟨_, ⟨⟨target, -, rfl⟩, hlt⟩, hfiltered⟩, hsome⟩
      obtain ⟨hsource, htarget⟩ := List.mem_filter.mp hfiltered
      have heq : Relocation.dest accepted source = target := by simpa using htarget
      subst heq
      exact ⟨hsource, hlt, hsome⟩
    · rintro ⟨hsource, hlt, hsome⟩
      refine ⟨⟨_, ⟨⟨_, ⟨source, hsource, rfl⟩, rfl⟩, hlt⟩, ?_⟩, hsome⟩
      exact List.mem_filter.mpr ⟨hsource, by simp [Relocation.dest]⟩
  rw [hmem]
  constructor
  · rintro ⟨hsource, hlt, hsome⟩
    rw [one_lt_length_filter hnodup hsource (by simp)] at hlt
    exact ⟨hsource, by simpa [Relocation.Meets] using hlt, hsome⟩
  · rintro ⟨hsource, hmeets, hsome⟩
    refine ⟨hsource, ?_, hsome⟩
    rw [one_lt_length_filter hnodup hsource (by simp)]
    simpa [Relocation.Meets] using hmeets

lemma rejected_subset {order : Iteration} (h : source ∈ rejected order accepted sources) :
    source ∈ sources ∧ (accepted source).isSome = true := by
  obtain ⟨hflat, hsome⟩ := List.mem_filter.mp h
  obtain ⟨group, hgroup, hsource⟩ := List.mem_flatten.mp hflat
  obtain ⟨target, -, rfl⟩ := List.mem_map.mp (List.mem_filter.mp hgroup).1
  rw [destinations_eq] at hsource
  exact ⟨(List.mem_filter.mp hsource).1, hsome⟩

/-- Without the sources that are rejected. -/
def retain (accepted : String → Option String) (out : List String) (source : String) :
    Option String :=
  if source ∈ out then none else accepted source

/-- How many of the vaults are bound. -/
def bound (vs : List String) (accepted : String → Option String) : ℕ :=
  (vs.filter fun source => (accepted source).isSome).length

/-- A round that rejects leaves fewer. -/
lemma bound_retain_lt {out : List String} (hsource : source ∈ out) (hmem : source ∈ vs)
    (hsome : (accepted source).isSome = true) : bound vs (retain accepted out) < bound vs accepted := by
  have hsub : List.Sublist (vs.filter fun source => (retain accepted out source).isSome)
      (vs.filter fun source => (accepted source).isSome) := by
    refine List.monotone_filter_right vs fun source hleft => ?_
    rw [retain] at hleft
    split_ifs at hleft
    · cases hleft
    · exact hleft
  refine lt_of_le_of_ne hsub.length_le fun heq => ?_
  have hstill : source ∈ vs.filter fun source => (retain accepted out source).isSome := by
    rw [hsub.eq_of_length heq]
    exact List.mem_filter.mpr ⟨hmem, hsome⟩
  have hnone := (List.mem_filter.mp hstill).2
  rw [retain, if_pos hsource] at hnone
  cases hnone

/-- The loop: sources are rejected until none is left that goes where others go. -/
def accept (order : ℕ → Iteration) (vs : List String) (accepted : String → Option String) :
    String → Option String :=
  let out := rejected (order 0) accepted ((order 0).visit vs)
  if hout : out = [] then accepted
  else
    have : bound vs (retain accepted out) < bound vs accepted := by
      obtain ⟨source, hsource⟩ := List.exists_mem_of_ne_nil _ hout
      obtain ⟨hmem, hsome⟩ := rejected_subset hsource
      exact bound_retain_lt hsource ((order 0).mem_visit.mp hmem) hsome
    accept (fun n => order (n + 1)) vs (retain accepted out)
termination_by bound vs accepted

/-- A round of the loop is a round of moves on the server's vaults. -/
lemma round_retain {order : Iteration} (hvs : vs.Nodup) :
    Relocation.Round vs.toFinset accepted (retain accepted (rejected order accepted (order.visit vs))) := by
  have hmem : ∀ source, source ∈ rejected order accepted (order.visit vs) ↔
      source ∈ vs ∧ Relocation.Meets vs.toFinset accepted source ∧ (accepted source).isSome = true := by
    intro source
    rw [mem_rejected (order.nodup_visit.mpr hvs), order.mem_visit, List.toFinset_eq_of_perm _ _ (order.perm vs)]
  constructor
  · intro source hsource hmeets
    rw [retain]
    split_ifs with hout
    · rfl
    · rw [hmem] at hout
      rw [← Option.not_isSome_iff_eq_none]
      exact fun hsome => hout ⟨List.mem_toFinset.mp hsource, hmeets, hsome⟩
  · intro source hnot
    rw [retain, if_neg]
    intro hout
    obtain ⟨hsource, hmeets, -⟩ := (hmem source).mp hout
    exact hnot ⟨List.mem_toFinset.mpr hsource, hmeets⟩

/-- The loop ends with what is left of the moves. -/
lemma settles_accept (order : ℕ → Iteration) (hvs : vs.Nodup) (accepted : String → Option String) :
    Relocation.Settles vs.toFinset accepted (accept order vs accepted) := by
  induction order, accepted using accept.induct vs with
  | case1 order accepted out hout =>
    rw [accept, dif_pos hout]
    refine .done fun source hsource hmeets => ?_
    by_contra hsome
    have hmem : source ∈ out := by
      refine (mem_rejected ((order 0).nodup_visit.mpr hvs)).mpr ⟨?_, ?_, Option.isSome_iff_ne_none.mpr hsome⟩
      · exact (order 0).mem_visit.mpr (List.mem_toFinset.mp hsource)
      · rwa [List.toFinset_eq_of_perm _ _ ((order 0).perm vs)]
    rw [hout] at hmem
    cases hmem
  | case2 order accepted out hout hlt ih =>
    rw [accept, dif_neg hout]
    exact .round (round_retain hvs) ih

/-! ## Bindings -/

/-- A pair whose vaults are in no other pair. -/
def Unambiguous (pairs : List (String × String)) (l s : String) : Prop :=
  (l, s) ∈ pairs ∧ ∀ l' s', (l', s') ∈ pairs → (l' = l ↔ s' = s)

variable {pairs : List (String × String)} {l s : String}

lemma mem_byLocal : target ∈ byLocal pairs l ↔ (l, target) ∈ pairs := by
  simp [byLocal]

lemma mem_byServer : target ∈ byServer pairs s ↔ (target, s) ∈ pairs := by
  simp [byServer]

lemma unambiguous_iff (hmem : (l, s) ∈ pairs) :
    (byLocal pairs l).card = 1 ∧ (byServer pairs s).card = 1 ↔ Unambiguous pairs l s := by
  rw [Finset.card_eq_one, Finset.card_eq_one]
  constructor
  · rintro ⟨⟨s₀, hlocal⟩, l₀, hserver⟩
    have hs : ∀ s', (l, s') ∈ pairs → s' = s₀ := fun s' h => by
      simpa [hlocal] using mem_byLocal.mpr h
    have hl : ∀ l', (l', s) ∈ pairs → l' = l₀ := fun l' h => by
      simpa [hserver] using mem_byServer.mpr h
    refine ⟨hmem, fun l' s' h => ⟨fun heq => ?_, fun heq => ?_⟩⟩
    · subst heq
      exact (hs s' h).trans (hs s hmem).symm
    · subst heq
      exact (hl l' h).trans (hl l hmem).symm
  · rintro ⟨-, hone⟩
    refine ⟨⟨s, Finset.ext fun s' => ?_⟩, l, Finset.ext fun l' => ?_⟩
    · rw [mem_byLocal, Finset.mem_singleton]
      constructor
      · exact fun h => (hone l s' h).mp rfl
      · rintro rfl
        exact hmem
    · rw [mem_byServer, Finset.mem_singleton]
      constructor
      · exact fun h => (hone l' s h).mpr rfl
      · rintro rfl
        exact hmem

lemma aliases_eq_some : aliases pairs s = some l ↔ Unambiguous pairs l s := by
  constructor
  · intro h
    obtain ⟨⟨l', s'⟩, hlast, rfl⟩ := Option.map_eq_some_iff.mp h
    obtain ⟨hmem, rfl⟩ := mem_of_lastOf hlast
    obtain ⟨hpair, hcard⟩ := List.mem_filter.mp hmem
    exact (unambiguous_iff hpair).mp (by simpa using hcard)
  · intro h
    have hcard := (unambiguous_iff h.1).mpr h
    have hmem : (l, s) ∈ pairs.filter fun (l, s) =>
        (byLocal pairs l).card = 1 ∧ (byServer pairs s).card = 1 :=
      List.mem_filter.mpr ⟨h.1, by simpa using hcard⟩
    obtain ⟨⟨l', s'⟩, hlast⟩ := Option.isSome_iff_exists.mp (lastOf_isSome_of_mem Prod.snd hmem)
    obtain ⟨hmem', hs⟩ := mem_of_lastOf hlast
    obtain rfl : s' = s := hs
    have hl : l' = l := (h.2 l' s' (List.mem_filter.mp hmem').1).mpr rfl
    subst hl
    exact Option.map_eq_some_iff.mpr ⟨_, hlast, rfl⟩

lemma oneToOne_aliases : Relocation.OneToOne (aliases pairs) := by
  intro s s' l h h'
  rw [aliases_eq_some] at h h'
  exact ((h.2 l s' h'.1).mp rfl).symm

/-! ## The keys of the server -/

/-- The keys of the server's rows afterwards, and whether the vaults of the tiers still differ. -/
def reconcileVaultPairsWithMappings (order : ℕ → Iteration) (loc server : List EntityKey)
    (mappings : List (String × String)) : List EntityKey × Bool :=
  let aliases := aliases (mappings.filterMap vaultPair)
  if vaults loc = [] ∨ vaults server = [] then (server, false)
  else
    let accepted := accept order (vaults server) aliases
    let keys := server.map (·.moved accepted)
    (keys, (vaults loc).toFinset ≠ (vaults keys).toFinset)

variable {order : ℕ → Iteration} {loc server : List EntityKey} {mappings : List (String × String)}
  {k : EntityKey} {v w : String}

lemma mem_vaults {rows : List EntityKey} : v ∈ vaults rows ↔ ∃ k ∈ rows, k.vault = some v := by
  simp [vaults]

lemma nodup_vaults (rows : List EntityKey) : (vaults rows).Nodup := List.nodup_dedup _

lemma EntityKey.vault_requalify (k : EntityKey) : k.requalify.vault = k.vault := by
  unfold requalify
  split
  · rfl
  · rfl

lemma EntityKey.vault_moved (k : EntityKey) :
    (k.moved accepted).vault = k.vault.map (Relocation.dest accepted) := by
  cases hvault : k.vault with
  | none => simp [moved, hvault]
  | some v =>
    cases htarget : accepted v with
    | none => simp [moved, hvault, htarget, Relocation.dest]
    | some target => simp [moved, hvault, htarget, Relocation.dest, vault_requalify]

/-- Where the keys of a vault are moved to. -/
def plan (order : ℕ → Iteration) (loc server : List EntityKey) (mappings : List (String × String))
    (v : String) : Option String :=
  if vaults loc = [] ∨ vaults server = [] then none
  else accept order (vaults server) (aliases (mappings.filterMap vaultPair)) v

lemma keys_eq : (reconcileVaultPairsWithMappings order loc server mappings).1 =
    server.map (·.moved (plan order loc server mappings)) := by
  unfold reconcileVaultPairsWithMappings plan
  split_ifs with hempty
  · have hid : (fun k : EntityKey => k.moved fun _ => none) = id := by
      funext k
      cases hvault : k.vault <;> simp [EntityKey.moved, hvault]
    simp [hid]
  · rfl

/-- With vaults on both sides, the plan is what is left of the bindings. -/
lemma settles_plan (order : ℕ → Iteration) (mappings : List (String × String))
    (hboth : ¬(vaults loc = [] ∨ vaults server = [])) :
    Relocation.Settles (vaults server).toFinset (aliases (mappings.filterMap vaultPair))
      (plan order loc server mappings) := by
  have hplan : plan order loc server mappings =
      accept order (vaults server) (aliases (mappings.filterMap vaultPair)) := by
    funext v
    rw [plan, if_neg hboth]
  rw [hplan]
  exact settles_accept order (nodup_vaults server) _

lemma plan_within :
    Relocation.Within (plan order loc server mappings) (aliases (mappings.filterMap vaultPair)) := by
  by_cases hboth : vaults loc = [] ∨ vaults server = []
  · intro v target h
    rw [plan, if_pos hboth] at h
    cases h
  · exact (settles_plan order mappings hboth).within

lemma plan_apart : Relocation.Apart (vaults server).toFinset (plan order loc server mappings) := by
  by_cases hboth : vaults loc = [] ∨ vaults server = []
  · intro v _ w _ heq
    have hnone : ∀ v, plan order loc server mappings v = none := fun v => by rw [plan, if_pos hboth]
    rwa [Relocation.dest_of_none (hnone v), Relocation.dest_of_none (hnone w)] at heq
  · exact (settles_plan order mappings hboth).apart oneToOne_aliases

/-- Rows and mappings in another order, visited in another order. -/
lemma plan_perm (order order' : ℕ → Iteration) {loc' server' : List EntityKey}
    {mappings' : List (String × String)} (hloc : loc'.Perm loc) (hserver : server'.Perm server)
    (hmappings : mappings'.Perm mappings) :
    plan order' loc' server' mappings' = plan order loc server mappings := by
  have hvaults : ∀ {rows rows' : List EntityKey}, rows'.Perm rows → (vaults rows').Perm (vaults rows) :=
    fun h => (h.filterMap _).dedup
  have haliases : aliases (mappings'.filterMap vaultPair) = aliases (mappings.filterMap vaultPair) := by
    funext s
    ext l
    have hpairs := fun pair => (hmappings.filterMap vaultPair).mem_iff (a := pair)
    simp only [aliases_eq_some, Unambiguous, hpairs]
  by_cases hboth : vaults loc = [] ∨ vaults server = []
  · have hboth' : vaults loc' = [] ∨ vaults server' = [] := by
      refine hboth.imp (fun h => ?_) fun h => ?_
      · exact List.perm_nil.mp (h ▸ hvaults hloc)
      · exact List.perm_nil.mp (h ▸ hvaults hserver)
    funext v
    rw [plan, plan, if_pos hboth, if_pos hboth']
  · have hboth' : ¬(vaults loc' = [] ∨ vaults server' = []) := by
      refine fun h => hboth (h.imp (fun h => ?_) fun h => ?_)
      · exact List.perm_nil.mp (h ▸ (hvaults hloc).symm)
      · exact List.perm_nil.mp (h ▸ (hvaults hserver).symm)
    have hsettles' := settles_plan order' mappings' hboth'
    rw [List.toFinset_eq_of_perm _ _ (hvaults hserver), haliases] at hsettles'
    exact hsettles'.unique (settles_plan order mappings hboth) oneToOne_aliases

/-- The vaults of some rows. -/
def vaultSet (rows : List EntityKey) : Set String := {v | ∃ k ∈ rows, k.vault = some v}

lemma toFinset_vaults_eq {rows rows' : List EntityKey} :
    (vaults rows).toFinset = (vaults rows').toFinset ↔ vaultSet rows = vaultSet rows' := by
  rw [Finset.ext_iff, Set.ext_iff]
  refine forall_congr' fun v => ?_
  rw [List.mem_toFinset, List.mem_toFinset, mem_vaults, mem_vaults]
  exact Iff.rfl

lemma vaults_eq_nil {rows : List EntityKey} : vaults rows = [] ↔ vaultSet rows = ∅ := by
  rw [List.eq_nil_iff_forall_not_mem, Set.eq_empty_iff_forall_notMem]
  refine forall_congr' fun v => ?_
  rw [mem_vaults]
  exact Iff.rfl

lemma flag_eq_false : (reconcileVaultPairsWithMappings order loc server mappings).2 = false ↔
    vaultSet loc = vaultSet (reconcileVaultPairsWithMappings order loc server mappings).1 ∨
      vaultSet loc = ∅ ∨ vaultSet server = ∅ := by
  unfold reconcileVaultPairsWithMappings
  split_ifs with hboth
  · rw [vaults_eq_nil, vaults_eq_nil] at hboth
    simp [hboth]
  · rw [vaults_eq_nil, vaults_eq_nil] at hboth
    simp [hboth, toFinset_vaults_eq]

lemma vaultSet_perm {rows rows' : List EntityKey} (h : rows'.Perm rows) :
    vaultSet rows' = vaultSet rows := by
  simp [vaultSet, h.mem_iff]

/-- **Reconciliation of vaults.**  One plan of moves decides about all keys of the server.  It is the
same for every order of the rows, of the mappings and of the sets that are visited; it joins no two
vaults; it follows unambiguous pairs only; a vault that is bound stays if and only if another one ends
where it would go, and every plan along unambiguous pairs that joins no two vaults is part of it.  The
flag is unset exactly if the vaults of the tiers are equal afterwards, or a tier has none. -/
theorem reconcile_vaults (order : ℕ → Iteration) (loc server : List EntityKey)
    (mappings : List (String × String)) :
    ∃ plan : String → Option String,
      (reconcileVaultPairsWithMappings order loc server mappings).1 = server.map (·.moved plan) ∧
      (∀ k ∈ server, ∀ k' ∈ server, (k.moved plan).vault = (k'.moved plan).vault →
        k.vault = k'.vault) ∧
      (∀ v target, plan v = some target → Unambiguous (mappings.filterMap vaultPair) target v) ∧
      (vaultSet loc ≠ ∅ → ∀ v ∈ vaultSet server, ∀ target,
        Unambiguous (mappings.filterMap vaultPair) target v →
          (plan v = none ↔ ∃ w ∈ vaultSet server, w ≠ v ∧ (plan w).getD w = target)) ∧
      (vaultSet loc ≠ ∅ → ∀ other : String → Option String,
        (∀ v target, other v = some target → Unambiguous (mappings.filterMap vaultPair) target v) →
        Set.InjOn (fun v => (other v).getD v) (vaultSet server) →
          ∀ v ∈ vaultSet server, ∀ target, other v = some target → plan v = some target) ∧
      (∀ order' loc' server' mappings', loc'.Perm loc → server'.Perm server →
        mappings'.Perm mappings →
          reconcileVaultPairsWithMappings order' loc' server' mappings' =
            (server'.map (·.moved plan),
              (reconcileVaultPairsWithMappings order loc server mappings).2)) ∧
      ((reconcileVaultPairsWithMappings order loc server mappings).2 = false ↔
        vaultSet loc = vaultSet (reconcileVaultPairsWithMappings order loc server mappings).1 ∨
          vaultSet loc = ∅ ∨ vaultSet server = ∅) := by
  have hmem : ∀ v, v ∈ (vaults server).toFinset ↔ v ∈ vaultSet server := fun v => by
    rw [List.mem_toFinset, mem_vaults]
    exact Iff.rfl
  have hboth : vaultSet loc ≠ ∅ → ∀ v ∈ vaultSet server, ¬(vaults loc = [] ∨ vaults server = []) := by
    rintro hloc v hv (h | h)
    · exact hloc (vaults_eq_nil.mp h)
    · rw [vaults_eq_nil.mp h] at hv
      cases hv
  refine ⟨plan order loc server mappings, keys_eq, ?_, ?_, ?_, ?_, ?_, flag_eq_false⟩
  · intro k hk k' hk' heq
    rw [EntityKey.vault_moved, EntityKey.vault_moved] at heq
    cases hv : k.vault with
    | none =>
      rw [hv] at heq
      exact (Option.map_eq_none_iff.mp heq.symm).symm
    | some v =>
      cases hw : k'.vault with
      | none => simp [hv, hw] at heq
      | some w =>
        rw [hv, hw] at heq
        have hsame := plan_apart v ((hmem v).mpr ⟨k, hk, hv⟩) w ((hmem w).mpr ⟨k', hk', hw⟩)
          (Option.some.inj heq)
        rw [hsame]
  · exact fun v target h => aliases_eq_some.mp (plan_within v target h)
  · intro hloc v hv target htarget
    have hstays := (settles_plan order mappings (hboth hloc v hv)).stays_iff
      oneToOne_aliases ((hmem v).mpr hv) (aliases_eq_some.mpr htarget)
    simpa only [hmem, Relocation.dest] using hstays
  · intro hloc other hother hinj v hv target htarget
    refine (settles_plan order mappings (hboth hloc v hv)).greatest oneToOne_aliases ?_ ?_ v ((hmem v).mpr hv) target htarget
    · exact fun v hv w hw heq => hinj ((hmem v).mp hv) ((hmem w).mp hw) heq
    · exact fun v _ target h => aliases_eq_some.mpr (hother v target h)
  · intro order' loc' server' mappings' hloc hserver hmappings
    have hplan := plan_perm order order' hloc hserver hmappings
    have hkeys : (reconcileVaultPairsWithMappings order' loc' server' mappings').1 =
        server'.map (·.moved (plan order loc server mappings)) := by
      rw [keys_eq, hplan]
    refine Prod.ext hkeys ?_
    rw [Bool.eq_iff_iff, ← not_iff_not, Bool.not_eq_true, Bool.not_eq_true, flag_eq_false, flag_eq_false,
      hkeys, keys_eq, vaultSet_perm hloc, vaultSet_perm hserver, vaultSet_perm (hserver.map _)]

end Federation
end NestWeaver
