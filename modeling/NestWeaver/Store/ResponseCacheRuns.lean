import NestWeaver.Framework.Agents
import NestWeaver.Store.ResponseCache

/-!
# Response caches that share a sidecar

Every thread of every process has a cache of its own and replaces the sidecar as a whole; the last one that
writes wins.  The processes may be of different versions, which give their responses different shapes, and the
sidecar may be lost or damaged at any time.

A cache is advisory.  What matters is that a hit is a response that was given for the same key, state of the
graph and shape.
-/

set_option linter.all false

namespace NestWeaver
namespace Cache

open Transition

inductive Act
  | openCache (maxSizeMb shapeVersion : ℕ)
  | get (now : ℚ) (key generation scopeDigest : ℕ)
  | insert (now evictedAt : ℚ) (key : ℕ) (tool : String) (response : Bytes) (generation scopeDigest : ℕ)
  | evict (now : ℚ)
  | flush (written : Bool)
  | close
  /-- The sidecar is gone, or cannot be decoded any more. -/
  | damage (sidecar : Option Bytes)

variable {ι : Type} [DecidableEq ι]

def act (codec : Codec) (_ : ι) (a : Act) (sidecar : Option Bytes) (cache : Option ResponseCache) :
    Option (Option Bytes × Option ResponseCache) :=
  match a, cache with
  | .openCache maxSizeMb shapeVersion, none => some (sidecar, some (openWith codec sidecar maxSizeMb shapeVersion))
  | .get now key generation scopeDigest, some cache =>
    some (sidecar, some (get codec cache now key generation scopeDigest).2)
  | .insert now evictedAt key tool response generation scopeDigest, some cache =>
    some (sidecar, some (insert codec cache now evictedAt key tool response generation scopeDigest))
  | .evict now, some cache => some (sidecar, some (evictToCap cache now))
  | .flush written, some cache => some (flush codec cache sidecar written, some cache)
  | .close, some _ => some (sidecar, none)
  | .damage sidecar', cache =>
    if (sidecar'.bind fun bytes => (decodeCacheBytes codec bytes).toOption).isNone then some (sidecar', cache)
    else none
  | _, _ => none

abbrev World (ι : Type) := Agents ι (Option Bytes) (Option ResponseCache)

/-- No sidecar, and no cache. -/
def start (ι : Type) : World ι := ⟨none, fun _ => none⟩

section

variable (codec : Codec)

/-- The entry was inserted by a cache of its shape. -/
def Inserted (acts : List (ι × Act)) (e : CacheEntry) : Prop :=
  ∃ front j evictedAt raw back u cache,
    acts = front ++ (j, Act.insert e.createdAt evictedAt e.keyHash e.tool raw e.generation e.scopeDigest) :: back ∧
    run (Agents.step (act codec)) (start ι) front = some u ∧ u.phase j = some cache ∧
    cache.shapeVersion = e.shapeVersion ∧ codec.encodeAll raw = .ok e.response

/-- The entries are under their keys, and all of them were inserted. -/
structure Genuine (acts : List (ι × Act)) (entries : Entries) : Prop where
  keyed : Keyed entries
  inserted : ∀ k e, entries.lookup k = some e → Inserted codec acts e

/-- What can be read from the sidecar was inserted. -/
def GenuineSidecar (acts : List (ι × Act)) (sidecar : Option Bytes) : Prop :=
  ∀ bytes entries, sidecar = some bytes → decodeCacheBytes codec bytes = .ok entries →
    ∀ e ∈ entries, Inserted codec acts e

structure Traced (acts : List (ι × Act)) (w : World ι) : Prop where
  caches : ∀ i cache, w.phase i = some cache → Genuine codec acts cache.entries
  sidecar : GenuineSidecar codec acts w.shared

end

variable {codec : Codec} {acts : List (ι × Act)} {w w' : World ι} {entries : Entries}
  {sidecar : Option Bytes} {cache : ResponseCache} {now : ℚ} {i : ι}

lemma Inserted.concat {e : CacheEntry} (h : Inserted codec acts e) (ia : ι × Act) :
    Inserted codec (acts ++ [ia]) e := by
  obtain ⟨front, j, evictedAt, raw, back, u, cache, rfl, hrest⟩ := h
  exact ⟨front, j, evictedAt, raw, back ++ [ia], u, cache, by simp, hrest⟩

lemma Genuine.concat (h : Genuine codec acts entries) (ia : ι × Act) : Genuine codec (acts ++ [ia]) entries :=
  ⟨h.keyed, fun k e hlookup => (h.inserted k e hlookup).concat ia⟩

lemma GenuineSidecar.concat (h : GenuineSidecar codec acts sidecar) (ia : ι × Act) :
    GenuineSidecar codec (acts ++ [ia]) sidecar :=
  fun bytes entries hbytes hdecode e he => (h bytes entries hbytes hdecode e he).concat ia

/-! ## What an act adds -/

lemma genuine_empty : Genuine codec acts ∅ := by
  refine ⟨fun k e h => ?_, fun k e h => ?_⟩
  · cases h
  · cases h

lemma genuine_openWith (h : GenuineSidecar codec acts sidecar) (maxSizeMb shapeVersion : ℕ) :
    Genuine codec acts (openWith codec sidecar maxSizeMb shapeVersion).entries := by
  cases sidecar with
  | none => exact genuine_empty
  | some bytes =>
    rw [openWith, Option.bind_some]
    cases hdecode : decodeCacheBytes codec bytes with
    | error e => exact genuine_empty
    | ok es =>
      refine ⟨fun k e hlookup => (lookup_load hlookup).2.1, fun k e hlookup => ?_⟩
      exact h bytes es rfl hdecode e (lookup_load hlookup).1

/-- A hit changes the last access of its entry only. -/
lemma genuine_get (h : Genuine codec acts cache.entries) (key generation scopeDigest : ℕ) :
    Genuine codec acts (get codec cache now key generation scopeDigest).2.entries := by
  rw [get]
  split
  · exact h
  · rename_i e hlookup
    split_ifs
    · refine ⟨h.keyed.insert (h.keyed key e hlookup), fun k e' hlookup' => ?_⟩
      by_cases hk : k = key
      · subst hk
        obtain rfl := Option.some.inj ((AList.lookup_insert _).symm.trans hlookup')
        exact h.inserted k e hlookup
      · exact h.inserted k e' ((AList.lookup_insert_ne hk).symm.trans hlookup')
    · exact h

lemma genuine_evictToCap (h : Genuine codec acts cache.entries) :
    Genuine codec acts (evictToCap cache now).entries := by
  obtain ⟨-, -, -, -, -, hsub, -⟩ := evictToCap_order cache h.keyed now
  have hold : ∀ k e, (evictToCap cache now).entries.lookup k = some e → cache.entries.lookup k = some e :=
    fun k e hlookup => (lookup_unexpired.mp (hsub k e hlookup)).1
  exact ⟨h.keyed.mono hold, fun k e hlookup => h.inserted k e (hold k e hlookup)⟩

lemma genuine_insert (hrun : run (Agents.step (act codec)) (start ι) acts = some w)
    (hcache : w.phase i = some cache) (h : Genuine codec acts cache.entries) (evictedAt : ℚ) (key : ℕ)
    (tool : String) (response : Bytes) (generation scopeDigest : ℕ) :
    Genuine codec (acts ++ [(i, Act.insert now evictedAt key tool response generation scopeDigest)])
      (insert codec cache now evictedAt key tool response generation scopeDigest).entries := by
  rw [insert]
  split
  · exact h.concat _
  · rename_i packed hpacked
    refine genuine_evictToCap ⟨h.keyed.insert rfl, fun k e hlookup => ?_⟩
    by_cases hk : k = key
    · subst hk
      obtain rfl := Option.some.inj ((AList.lookup_insert _).symm.trans hlookup)
      exact ⟨acts, i, evictedAt, response, [], w, cache, rfl, hrun, hcache, rfl, hpacked⟩
    · exact (h.inserted k e ((AList.lookup_insert_ne hk).symm.trans hlookup)).concat _

lemma genuineSidecar_flush (hcache : Genuine codec acts cache.entries) (h : GenuineSidecar codec acts sidecar)
    (written : Bool) : GenuineSidecar codec acts (flush codec cache sidecar written) := by
  rw [flush]
  split
  · rename_i bytes hencode
    split_ifs
    · intro bytes' es hbytes hdecode e he
      obtain rfl := Option.some.inj hbytes
      rw [decodeCacheBytes_encodeBinary hencode] at hdecode
      obtain rfl := Except.ok.inj hdecode
      exact hcache.inserted _ e ((mem_values hcache.keyed).mp he)
    · exact h
  · exact h

lemma genuine_of_act {a : Act} {cache' : Option ResponseCache} {sidecar' : Option Bytes}
    (hrun : run (Agents.step (act codec)) (start ι) acts = some w) (ht : Traced codec acts w)
    (h : act codec i a w.shared (w.phase i) = some (sidecar', cache')) :
    GenuineSidecar codec (acts ++ [(i, a)]) sidecar' ∧
      ∀ c, cache' = some c → Genuine codec (acts ++ [(i, a)]) c.entries := by
  generalize hphase : w.phase i = cache at h
  unfold act at h
  split at h
  · -- openCache
    obtain ⟨rfl, rfl⟩ := Prod.mk.inj (Option.some.inj h)
    refine ⟨ht.sidecar.concat _, fun c hc => ?_⟩
    obtain rfl := Option.some.inj hc
    exact genuine_openWith (ht.sidecar.concat _) _ _
  · obtain ⟨rfl, rfl⟩ := Prod.mk.inj (Option.some.inj h)
    refine ⟨ht.sidecar.concat _, fun c hc => ?_⟩
    obtain rfl := Option.some.inj hc
    exact genuine_get ((ht.caches i _ hphase).concat _) _ _ _
  · obtain ⟨rfl, rfl⟩ := Prod.mk.inj (Option.some.inj h)
    refine ⟨ht.sidecar.concat _, fun c hc => ?_⟩
    obtain rfl := Option.some.inj hc
    exact genuine_insert hrun hphase (ht.caches i _ hphase) _ _ _ _ _ _
  · obtain ⟨rfl, rfl⟩ := Prod.mk.inj (Option.some.inj h)
    refine ⟨ht.sidecar.concat _, fun c hc => ?_⟩
    obtain rfl := Option.some.inj hc
    exact genuine_evictToCap ((ht.caches i _ hphase).concat _)
  · -- flush
    rename_i written cache
    obtain ⟨rfl, rfl⟩ := Prod.mk.inj (Option.some.inj h)
    have hcache := (ht.caches i cache hphase).concat (i, Act.flush written)
    refine ⟨genuineSidecar_flush hcache (ht.sidecar.concat _) _, fun c hc => ?_⟩
    obtain rfl := Option.some.inj hc
    exact hcache
  · obtain ⟨rfl, rfl⟩ := Prod.mk.inj (Option.some.inj h)
    exact ⟨ht.sidecar.concat _, fun c hc => by cases hc⟩
  · -- damage
    split_ifs at h with hdamaged
    obtain ⟨rfl, rfl⟩ := Prod.mk.inj (Option.some.inj h)
    refine ⟨fun bytes es hbytes hdecode => ?_, fun c hc => ?_⟩
    · rw [hbytes, Option.bind_some, hdecode] at hdamaged
      cases hdamaged
    · exact (ht.caches i c (hphase.trans hc)).concat _
  · cases h

lemma traced_start : Traced codec [] (start ι) :=
  ⟨fun i cache h => (by cases h), fun bytes entries h => (by cases h)⟩

lemma traced_of_run (hrun : run (Agents.step (act codec)) (start ι) acts = some w) : Traced codec acts w := by
  induction acts using List.reverseRecOn generalizing w with
  | nil =>
    obtain rfl := Option.some.inj hrun
    exact traced_start
  | append_singleton front ia ih =>
    obtain ⟨u, hu, hstep⟩ := run_concat_eq_some.mp hrun
    obtain ⟨i, a⟩ := ia
    obtain ⟨sidecar', cache', hact, rfl⟩ := Agents.step_eq_some.mp hstep
    obtain ⟨hsidecar, hcache⟩ := genuine_of_act hu (ih hu) hact
    refine ⟨fun j c hj => ?_, hsidecar⟩
    by_cases hne : j = i
    · subst hne
      simp only [Function.update_self] at hj
      exact hcache c hj
    · simp only [Function.update_of_ne hne] at hj
      exact ((ih hu).caches j c hj).concat _

/-- **A hit is a response of the same key, graph and shape.**  Whatever caches are opened, filled, trimmed and
flushed by whom, and whatever becomes of the sidecar: what a cache returns for a key at a generation and a scope
digest was inserted for them, by a cache of the same shape version, no longer than the time to live ago. -/
theorem hit_was_inserted (hrun : run (Agents.step (act codec)) (start ι) acts = some w)
    (hcache : w.phase i = some cache) {key generation scopeDigest : ℕ} {response : Bytes}
    (hhit : (get codec cache now key generation scopeDigest).1 = some response) :
    ∃ front j createdAt evictedAt tool back u cache',
      acts = front ++ (j, Act.insert createdAt evictedAt key tool response generation scopeDigest) :: back ∧
      run (Agents.step (act codec)) (start ι) front = some u ∧ u.phase j = some cache' ∧
      cache'.shapeVersion = cache.shapeVersion ∧ now - createdAt ≤ ttlSecs := by
  have hgenuine := (traced_of_run hrun).caches i cache hcache
  rw [get] at hhit
  split at hhit
  · cases hhit
  · rename_i e hlookup
    split_ifs at hhit with hmatches
    rw [CacheEntry.isHit, decide_eq_true_eq] at hmatches
    obtain ⟨hshape, rfl, rfl, hfresh⟩ := hmatches
    obtain ⟨front, j, evictedAt, raw, back, u, cache', hacts, hu, hj, hsame, hpacked⟩ :=
      hgenuine.inserted key e hlookup
    obtain rfl := hgenuine.keyed key e hlookup
    rw [codec.decode_encode raw e.response hpacked] at hhit
    obtain rfl := Option.some.inj hhit
    exact ⟨front, j, e.createdAt, evictedAt, e.tool, back, u, cache', hacts, hu, hj, hsame.trans hshape, hfresh⟩

/-- A thread inserts a response, and another one has opened a cache before. -/
def Sample.filled : List (ℕ × Act) :=
  [(0, .openCache 1 3), (1, .openCache 1 5), (0, .insert 10 10 7 "t" [123, 125] 1 2), (0, .flush true)]

lemma Sample.filled_hit : ((run (Agents.step (act Sample.codec)) (start ℕ) Sample.filled).bind fun w =>
    (w.phase 0).bind fun cache => (get Sample.codec cache 11 7 1 2).1) = some [123, 125] := by
  decide +kernel

theorem hit_was_inserted_filled : ∃ w cache,
    run (Agents.step (act Sample.codec)) (start ℕ) Sample.filled = some w ∧ w.phase 0 = some cache ∧
    (get Sample.codec cache 11 7 1 2).1 = some [123, 125] ∧
    ∃ j createdAt evictedAt tool, (j, .insert createdAt evictedAt 7 tool [123, 125] 1 2) ∈ Sample.filled ∧
      11 - createdAt ≤ ttlSecs := by
  obtain ⟨w, hrun, hbind⟩ := Option.bind_eq_some_iff.mp Sample.filled_hit
  obtain ⟨cache, hcache, hhit⟩ := Option.bind_eq_some_iff.mp hbind
  obtain ⟨front, j, createdAt, evictedAt, tool, back, u, cache', hacts, -, -, -, hfresh⟩ :=
    hit_was_inserted hrun hcache hhit
  refine ⟨w, cache, hrun, hcache, hhit, j, createdAt, evictedAt, tool, ?_, hfresh⟩
  rw [hacts]
  exact List.mem_append_right _ List.mem_cons_self

end Cache
end NestWeaver
