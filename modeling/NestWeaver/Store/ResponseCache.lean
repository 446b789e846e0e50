import Mathlib.Algebra.BigOperators.Group.List.Basic
import Mathlib.Algebra.Order.Ring.Rat
import Mathlib.Algebra.Ring.Nat
import Mathlib.Data.List.AList
import Mathlib.Data.List.Sort
import NestWeaver.Framework.Checked

/-!
# The response cache

`crates/nestweaver-store/src/cache.rs`: entries that are valid for one state of the graph and one shape of the
responses, in memory and in the `<db>.cache` sidecar.  Responses are compressed by zstd and documents are
encoded by MessagePack, which `Codec` gives.  Seconds are rational numbers.
-/

set_option linter.all false

namespace NestWeaver
namespace Cache

/-! ## Entries -/

abbrev Bytes := List UInt8

structure CacheEntry where
  keyHash : ℕ
  tool : String
  response : Bytes
  createdAt : ℚ
  generation : ℕ
  scopeDigest : ℕ
  lastAccess : ℚ
  shapeVersion : ℕ
  deriving DecidableEq

structure Codec where
  encodeAll : Bytes → Except String Bytes
  decodeAll : Bytes → Except String Bytes
  decode_encode : ∀ raw packed, encodeAll raw = .ok packed → decodeAll packed = .ok raw
  toVec : List CacheEntry → Except String Bytes
  /-- `rmp_serde::from_slice`. -/
  fromSlice : Bytes → Except String (List CacheEntry)
  fromSlice_toVec : ∀ entries raw, toVec entries = .ok raw → fromSlice raw = .ok entries
  /-- `serde_json::from_slice`, for sidecars of before. -/
  fromJson : Bytes → Except String (List CacheEntry)

/-- `TTL_SECS`. -/
def ttlSecs : ℚ := 24 * 60 * 60

/-- `CACHE_MAGIC`: `NWRC`. -/
def cacheMagic : Bytes := [78, 87, 82, 67]

/-- `CACHE_VERSION`. -/
def cacheVersion : UInt8 := 1

def CacheEntry.sizeBytes (e : CacheEntry) : ℕ := e.response.length + e.tool.utf8ByteSize + 64

/-- The hash map of the entries. -/
abbrev Entries := AList fun _ : ℕ => CacheEntry

/-- The cache of one thread. -/
structure ResponseCache where
  entries : Entries
  maxSizeBytes : ℕ
  shapeVersion : ℕ

/-- `HashMap::values`. -/
def values (entries : Entries) : List CacheEntry := entries.entries.map Sigma.snd

def u64Max : ℕ := 18446744073709551615

section

variable (codec : Codec)

/-! ## The sidecar -/

def decodeCacheBytes (bytes : Bytes) : Except String (List CacheEntry) :=
  if cacheMagic.isPrefixOf bytes then
    match bytes[cacheMagic.length]? with
    | none => .error "truncated binary cache header"
    | some version =>
      if version ≠ cacheVersion then
        .error ("unsupported cache version " ++ toString version ++ " (expected " ++ toString cacheVersion ++ ")")
      else do codec.fromSlice (← codec.decodeAll (bytes.drop (cacheMagic.length + 1)))
  else codec.fromJson bytes

/-- Entries of another shape are dropped. -/
def load (shapeVersion : ℕ) (entries : List CacheEntry) : Entries :=
  (entries.filter (·.shapeVersion = shapeVersion)).foldl (fun loaded e => loaded.insert e.keyHash e) ∅

/-- `open`, with what is read from the sidecar. -/
def openWith (sidecar : Option Bytes) (maxSizeMb shapeVersion : ℕ) : ResponseCache where
  entries := ((sidecar.bind fun bytes => (decodeCacheBytes codec bytes).toOption).map (load shapeVersion)).getD ∅
  maxSizeBytes := min (maxSizeMb * (1024 * 1024)) u64Max
  shapeVersion := shapeVersion

def encodeBinary (cache : ResponseCache) : Except String Bytes := do
  let raw ← codec.toVec (values cache.entries)
  let packed ← codec.encodeAll raw
  return cacheMagic ++ [cacheVersion] ++ packed

/-- `flush`: the sidecar is replaced, or stays. -/
def flush (cache : ResponseCache) (sidecar : Option Bytes) (written : Bool) : Option Bytes :=
  match encodeBinary codec cache with
  | .ok bytes => if written then some bytes else sidecar
  | .error _ => sidecar

/-! ## Reading and writing -/

def CacheEntry.isHit (e : CacheEntry) (shapeVersion : ℕ) (now : ℚ) (generation scopeDigest : ℕ) : Bool :=
  e.shapeVersion = shapeVersion ∧ e.generation = generation ∧ e.scopeDigest = scopeDigest ∧
    now - e.createdAt ≤ ttlSecs

def get (cache : ResponseCache) (now : ℚ) (key generation scopeDigest : ℕ) : Option Bytes × ResponseCache :=
  match cache.entries.lookup key with
  | none => (none, cache)
  | some e =>
    if e.isHit cache.shapeVersion now generation scopeDigest then
      ((codec.decodeAll e.response).toOption,
        { cache with entries := cache.entries.insert key { e with lastAccess := now } })
    else (none, cache)

end

def totalSize (entries : List CacheEntry) : ℕ := (entries.map CacheEntry.sizeBytes).sum

/-- Entries go, in this order, until the rest fits. -/
def evictLoop (cap : ℕ) : ℕ → List CacheEntry → Entries → Entries
  | _, [], entries => entries
  | total, e :: byLru, entries =>
    if total ≤ cap then entries
    else evictLoop cap (total - e.sizeBytes) byLru (entries.erase e.keyHash)

def unexpired (now : ℚ) (entries : Entries) : Entries :=
  ⟨entries.entries.filter fun e => now - e.2.createdAt ≤ ttlSecs, entries.nodupKeys.sublist List.filter_sublist⟩

def byLru (entries : Entries) : List CacheEntry :=
  (values entries).mergeSort fun a b => a.lastAccess ≤ b.lastAccess

/-- The hash map is traversed in the order of its entries here, which may be any. -/
def evictToCap (cache : ResponseCache) (now : ℚ) : ResponseCache :=
  let entries := unexpired now cache.entries
  let total := totalSize (values entries)
  if total ≤ cache.maxSizeBytes then { cache with entries }
  else { cache with entries := evictLoop cache.maxSizeBytes total (byLru entries) entries }

def insert (codec : Codec) (cache : ResponseCache) (now evictedAt : ℚ) (key : ℕ) (tool : String) (response : Bytes)
    (generation scopeDigest : ℕ) : ResponseCache :=
  match codec.encodeAll response with
  | .error _ => cache
  | .ok packed =>
    let e : CacheEntry := {
      keyHash := key
      tool
      response := packed
      createdAt := now
      generation
      scopeDigest
      lastAccess := now
      shapeVersion := cache.shapeVersion }
    evictToCap { cache with entries := cache.entries.insert key e } evictedAt

/-! ## What is in a cache -/

variable {entries entries' : Entries} {e e' : CacheEntry} {k : ℕ} {now : ℚ}

/-- Entries stand under their keys. -/
def Keyed (entries : Entries) : Prop := ∀ k e, entries.lookup k = some e → e.keyHash = k

lemma Keyed.insert (h : Keyed entries) (he : e.keyHash = k) : Keyed (entries.insert k e) := by
  intro k' e' hlookup
  by_cases hk : k' = k
  · subst hk
    obtain rfl := Option.some.inj ((AList.lookup_insert _).symm.trans hlookup)
    exact he
  · exact h k' e' ((AList.lookup_insert_ne hk).symm.trans hlookup)

lemma Keyed.mono (h : Keyed entries) (hsub : ∀ k e, entries'.lookup k = some e → entries.lookup k = some e) :
    Keyed entries' := fun k e hlookup => h k e (hsub k e hlookup)

lemma mem_values (h : Keyed entries) : e ∈ values entries ↔ entries.lookup e.keyHash = some e := by
  rw [values, List.mem_map]
  constructor
  · rintro ⟨⟨k, e⟩, hmem, rfl⟩
    have hlookup : entries.lookup k = some e := AList.mem_lookup_iff.mpr hmem
    rwa [h k e hlookup]
  · intro hlookup
    exact ⟨⟨e.keyHash, e⟩, AList.mem_lookup_iff.mp hlookup, rfl⟩

lemma nodup_keys (h : Keyed entries) : ((values entries).map CacheEntry.keyHash).Nodup := by
  have hkeys : (values entries).map CacheEntry.keyHash = entries.keys := by
    rw [values, List.map_map, AList.keys, List.keys]
    refine List.map_congr_left fun s hs => ?_
    exact h s.1 s.2 (AList.mem_lookup_iff.mpr hs)
  rw [hkeys]
  exact entries.keys_nodup

/-! ## Eviction -/

lemma lookup_of_erase {k' : ℕ} (h : (entries.erase k).lookup k' = some e) : entries.lookup k' = some e := by
  by_cases hk : k' = k
  · subst hk
    rw [AList.lookup_erase] at h
    cases h
  · rwa [AList.lookup_erase_ne hk] at h

lemma values_erase (h : Keyed entries) {rest : List CacheEntry} (hperm : (values entries).Perm (e :: rest)) :
    (values (entries.erase e.keyHash)).Perm rest := by
  have hmem : entries.lookup e.keyHash = some e :=
    (mem_values h).mp (hperm.mem_iff.mpr List.mem_cons_self)
  have hkey : e.keyHash ∈ entries.entries.keys := AList.lookup_isSome.mp (by rw [hmem]; rfl)
  obtain ⟨e', front, back, -, hentries, herase⟩ := List.exists_of_kerase hkey
  have hlookup : entries.lookup e.keyHash = some e' :=
    AList.mem_lookup_iff.mpr (by rw [hentries]; simp)
  obtain rfl := Option.some.inj (hmem.symm.trans hlookup)
  have hvalues : values (entries.erase e.keyHash) = front.map Sigma.snd ++ back.map Sigma.snd := by
    change (List.kerase e.keyHash entries.entries).map Sigma.snd = _
    rw [herase, List.map_append]
  rw [hvalues]
  rw [values, hentries, List.map_append, List.map_cons] at hperm
  exact (List.perm_middle.symm.trans hperm).cons_inv

/-- What the loop leaves: a first part of the order goes, as long as the rest does not fit. -/
lemma evictLoop_spec (cap : ℕ) {order : List CacheEntry} (h : Keyed entries)
    (hperm : (values entries).Perm order) :
    ∃ n, (values (evictLoop cap (totalSize order) order entries)).Perm (order.drop n) ∧
      (∀ k e, (evictLoop cap (totalSize order) order entries).lookup k = some e → entries.lookup k = some e) ∧
      totalSize (order.drop n) ≤ cap ∧ ∀ m < n, cap < totalSize (order.drop m) := by
  induction order generalizing entries with
  | nil => exact ⟨0, hperm, fun k e h => h, Nat.zero_le _, fun m hm => absurd hm (Nat.not_lt_zero m)⟩
  | cons e order ih =>
    rw [evictLoop]
    split_ifs with hfits
    · exact ⟨0, hperm, fun k e h => h, hfits, fun m hm => absurd hm (Nat.not_lt_zero m)⟩
    · have hrest : totalSize (e :: order) - e.sizeBytes = totalSize order := by
        simp [totalSize]
      rw [hrest]
      obtain ⟨n, hkept, hsub, htotal, hleast⟩ :=
        ih (h.mono fun k e' => lookup_of_erase) (values_erase h hperm)
      refine ⟨n + 1, hkept, fun k e' hlookup => lookup_of_erase (hsub k e' hlookup), htotal, fun m hm => ?_⟩
      cases m with
      | zero => exact Nat.lt_of_not_le hfits
      | succ m => exact hleast m (by omega)

lemma lookup_unexpired : (unexpired now entries).lookup k = some e ↔
    entries.lookup k = some e ∧ now - e.createdAt ≤ ttlSecs := by
  rw [← Option.mem_def, ← Option.mem_def, AList.mem_lookup_iff, AList.mem_lookup_iff, unexpired, List.mem_filter,
    decide_eq_true_eq]

/-- The entry could have stayed, and has gone. -/
def Evicted (cache : ResponseCache) (now : ℚ) (e : CacheEntry) : Prop :=
  cache.entries.lookup e.keyHash = some e ∧ now - e.createdAt ≤ ttlSecs ∧
    (evictToCap cache now).entries.lookup e.keyHash = none

/-- What is evicted is a first part of the order of the last accesses. -/
lemma evictToCap_order (cache : ResponseCache) (h : Keyed cache.entries) (now : ℚ) :
    ∃ n order, order.Pairwise (fun a b : CacheEntry => a.lastAccess ≤ b.lastAccess) ∧
      (values (unexpired now cache.entries)).Perm order ∧
      (values (evictToCap cache now).entries).Perm (order.drop n) ∧
      (∀ k e, (evictToCap cache now).entries.lookup k = some e →
        (unexpired now cache.entries).lookup k = some e) ∧
      totalSize (order.drop n) ≤ cache.maxSizeBytes ∧
      ∀ m < n, cache.maxSizeBytes < totalSize (order.drop m) := by
  have hkeyed : Keyed (unexpired now cache.entries) :=
    h.mono fun k e hlookup => (lookup_unexpired.mp hlookup).1
  have hperm : (values (unexpired now cache.entries)).Perm (byLru (unexpired now cache.entries)) :=
    (List.mergeSort_perm _ _).symm
  have htotal : totalSize (values (unexpired now cache.entries)) =
      totalSize (byLru (unexpired now cache.entries)) := (hperm.map _).sum_nat
  have hloop : (evictToCap cache now).entries =
      evictLoop cache.maxSizeBytes (totalSize (byLru (unexpired now cache.entries)))
        (byLru (unexpired now cache.entries)) (unexpired now cache.entries) := by
    rw [evictToCap, ← htotal]
    split_ifs with hfits
    · -- the loop leaves alone what fits
      cases byLru (unexpired now cache.entries) with
      | nil => rfl
      | cons e rest => rw [evictLoop, if_pos hfits]
    · rfl
  obtain ⟨n, hspec⟩ := evictLoop_spec cache.maxSizeBytes hkeyed hperm
  rw [← hloop] at hspec
  refine ⟨n, _, ?_, hperm, hspec⟩
  refine (List.pairwise_mergeSort ?_ ?_ (values (unexpired now cache.entries))).imp of_decide_eq_true
  · simp only [decide_eq_true_eq]
    exact fun a b c => le_trans
  · simp only [Bool.or_eq_true, decide_eq_true_eq]
    exact fun a b => le_total _ _

/-- **An eviction is exact.**  What stays was there, has not expired, and fits the cap; an entry that could
have stayed goes only if it was used no later than all that stays, and only if the rest would not have fit with
the last one of those that go. -/
theorem evictToCap_exact (cache : ResponseCache) (h : Keyed cache.entries) (now : ℚ) :
    (∀ k e, (evictToCap cache now).entries.lookup k = some e →
      cache.entries.lookup k = some e ∧ now - e.createdAt ≤ ttlSecs) ∧
    totalSize (values (evictToCap cache now).entries) ≤ cache.maxSizeBytes ∧
    (∀ e, Evicted cache now e → ∀ k e', (evictToCap cache now).entries.lookup k = some e' →
      e.lastAccess ≤ e'.lastAccess) ∧
    ((∃ e, Evicted cache now e) → ∃ last, Evicted cache now last ∧
      (∀ e, Evicted cache now e → e.lastAccess ≤ last.lastAccess) ∧
      cache.maxSizeBytes < totalSize (values (evictToCap cache now).entries) + last.sizeBytes) := by
  obtain ⟨n, order, hsorted, hperm, hkept, hsub, htotal, hleast⟩ := evictToCap_order cache h now
  have hkeyed : Keyed (unexpired now cache.entries) := h.mono fun k e hlookup => (lookup_unexpired.mp hlookup).1
  have hkeyed' := hkeyed.mono hsub
  have hsize : totalSize (values (evictToCap cache now).entries) = totalSize (order.drop n) :=
    (hkept.map _).sum_nat
  have hmem : ∀ e, e ∈ order ↔ (unexpired now cache.entries).lookup e.keyHash = some e :=
    fun e => hperm.mem_iff.symm.trans (mem_values hkeyed)
  have hstays : ∀ e, e ∈ order.drop n ↔ (evictToCap cache now).entries.lookup e.keyHash = some e :=
    fun e => hkept.mem_iff.symm.trans (mem_values hkeyed')
  have hdisjoint : List.Disjoint (order.take n) (order.drop n) := by
    refine List.disjoint_take_drop ?_ le_rfl
    exact hperm.nodup_iff.mp (nodup_keys hkeyed).of_map
  have hevicted : ∀ e, Evicted cache now e ↔ e ∈ order.take n := by
    intro e
    constructor
    · rintro ⟨hlookup, hfresh, hgone⟩
      have horder : e ∈ order := (hmem e).mpr (lookup_unexpired.mpr ⟨hlookup, hfresh⟩)
      rw [← List.take_append_drop n order, List.mem_append] at horder
      refine horder.resolve_right fun hdrop => ?_
      rw [(hstays e).mp hdrop] at hgone
      cases hgone
    · intro htake
      have hlookup := (hmem e).mp (List.mem_of_mem_take htake)
      refine ⟨(lookup_unexpired.mp hlookup).1, (lookup_unexpired.mp hlookup).2, ?_⟩
      by_contra hkeeps
      obtain ⟨e', he'⟩ := Option.ne_none_iff_exists'.mp hkeeps
      obtain rfl := Option.some.inj ((hsub _ e' he').symm.trans hlookup)
      exact hdisjoint htake ((hstays e').mpr he')
  refine ⟨fun k e hlookup => lookup_unexpired.mp (hsub k e hlookup), hsize ▸ htotal, ?_, ?_⟩
  · intro e hgone k e' hlookup
    rw [← List.take_append_drop n order, List.pairwise_append] at hsorted
    obtain rfl := hkeyed' k e' hlookup
    exact hsorted.2.2 e ((hevicted e).mp hgone) e' ((hstays e').mpr hlookup)
  · rintro ⟨e, hgone⟩
    have htake := (hevicted e).mp hgone
    obtain ⟨m, rfl⟩ : ∃ m, n = m + 1 := by
      cases n with
      | zero => cases htake
      | succ m => exact ⟨m, rfl⟩
    have hlt : m < order.length := by
      by_contra hlong
      have hover := hleast m (Nat.lt_succ_self m)
      rw [List.drop_eq_nil_of_le (Nat.le_of_not_lt hlong)] at hover
      exact absurd hover (Nat.not_lt_zero _)
    have htakes : order.take (m + 1) = order.take m ++ [order[m]] := List.take_succ_eq_append_getElem hlt
    refine ⟨order[m], (hevicted _).mpr ?_, fun e hgone => ?_, ?_⟩
    · rw [htakes]
      exact List.mem_append_right _ (List.mem_singleton_self _)
    · have hmem := (hevicted e).mp hgone
      have hpairs := (hsorted.sublist (List.take_sublist (m + 1) order))
      rw [htakes] at hmem hpairs
      obtain hmem | hmem := List.mem_append.mp hmem
      · exact (List.pairwise_append.mp hpairs).2.2 e hmem _ (List.mem_singleton_self _)
      · rw [List.mem_singleton.mp hmem]
    · have hover := hleast m (Nat.lt_succ_self m)
      rw [List.drop_eq_getElem_cons hlt, totalSize, List.map_cons, List.sum_cons] at hover
      rw [hsize, totalSize]
      omega

namespace Sample

def entry (keyHash : ℕ) (lastAccess : ℚ) : CacheEntry :=
  ⟨keyHash, "t", [0], 0, 1, 2, lastAccess, 3⟩

/-- One of two entries fits. -/
def full : ResponseCache := ⟨((∅ : Entries).insert 7 (entry 7 5)).insert 8 (entry 8 4), 100, 3⟩

lemma keyed_full : Keyed full.entries := by
  have hempty : Keyed ∅ := fun k e h => by cases h
  have hfirst : Keyed ((∅ : Entries).insert 7 (entry 7 5)) := hempty.insert rfl
  exact hfirst.insert rfl

end Sample

theorem evictToCap_exact_full : totalSize (values (evictToCap Sample.full 10).entries) ≤ 100 ∧
    ∀ e, Evicted Sample.full 10 e → ∀ k e', (evictToCap Sample.full 10).entries.lookup k = some e' →
      e.lastAccess ≤ e'.lastAccess :=
  ⟨(evictToCap_exact Sample.full Sample.keyed_full 10).2.1, (evictToCap_exact _ Sample.keyed_full 10).2.2.1⟩

namespace Sample

/-- A frame of zstd with one raw block. -/
def frame (raw : Bytes) : Bytes :=
  [0x28, 0xB5, 0x2F, 0xFD, 0x20, UInt8.ofNat raw.length, UInt8.ofNat (8 * raw.length + 1),
    UInt8.ofNat ((8 * raw.length + 1) / 256), 0] ++ raw

/-- The document with the first entry of the full cache, in MessagePack. -/
def document : Bytes :=
  [0x91, 0x91, 0x98, 0x07, 0xA1, 0x74, 0x91, 0x00, 0xCB, 0, 0, 0, 0, 0, 0, 0, 0, 0x01, 0x02, 0xCB, 0x40, 0x14, 0,
    0, 0, 0, 0, 0, 0x03]

def encodeAll (raw : Bytes) : Except String Bytes :=
  if raw.length < 256 then .ok (frame raw) else .error "content too long"

def decodeAll (packed : Bytes) : Except String Bytes :=
  if packed = frame (packed.drop 9) then .ok (packed.drop 9) else .error "Unknown frame descriptor"

lemma decodeAll_encodeAll (raw packed : Bytes) (h : encodeAll raw = .ok packed) : decodeAll packed = .ok raw := by
  rw [encodeAll] at h
  split_ifs at h
  obtain rfl := Except.ok.inj h
  exact if_pos rfl

def toVec (entries : List CacheEntry) : Except String Bytes :=
  if entries = [entry 7 5] then .ok document else .error "unsupported"

def fromSlice (bytes : Bytes) : Except String (List CacheEntry) :=
  if bytes = document then .ok [entry 7 5] else .error "invalid type"

lemma fromSlice_toVec (entries : List CacheEntry) (raw : Bytes) (h : toVec entries = .ok raw) :
    fromSlice raw = .ok entries := by
  rw [toVec] at h
  split_ifs at h with hentries
  obtain rfl := Except.ok.inj h
  rw [fromSlice, if_pos rfl, hentries]

def codec : Codec where
  encodeAll := encodeAll
  decodeAll := decodeAll
  decode_encode := decodeAll_encodeAll
  toVec := toVec
  fromSlice := fromSlice
  fromSlice_toVec := fromSlice_toVec
  fromJson _ := .error "expected value at line 1 column 1"

def single : ResponseCache := ⟨(∅ : Entries).insert 7 (entry 7 5), 100, 3⟩

end Sample

/-! ## From one process to the next -/

lemma lookup_foldl_insert {es : List CacheEntry} {loaded : Entries}
    (h : (es.foldl (fun loaded e => loaded.insert e.keyHash e) loaded).lookup k = some e) :
    (e ∈ es ∧ e.keyHash = k) ∨ (loaded.lookup k = some e ∧ ∀ e' ∈ es, e'.keyHash ≠ k) := by
  induction es generalizing loaded with
  | nil => exact .inr ⟨h, by simp⟩
  | cons e' es ih =>
    obtain ⟨hmem, hkey⟩ | ⟨hlookup, hother⟩ := ih h
    · exact .inl ⟨List.mem_cons_of_mem _ hmem, hkey⟩
    · by_cases hk : k = e'.keyHash
      · subst hk
        obtain rfl := Option.some.inj ((AList.lookup_insert _).symm.trans hlookup)
        exact .inl ⟨List.mem_cons_self, rfl⟩
      · rw [AList.lookup_insert_ne hk] at hlookup
        exact .inr ⟨hlookup, List.forall_mem_cons.mpr ⟨Ne.symm hk, hother⟩⟩

lemma lookup_load {es : List CacheEntry} {shapeVersion : ℕ} (h : (load shapeVersion es).lookup k = some e) :
    e ∈ es ∧ e.keyHash = k ∧ e.shapeVersion = shapeVersion := by
  obtain ⟨hmem, hkey⟩ | ⟨hlookup, -⟩ := lookup_foldl_insert h
  · obtain ⟨hmem, hshape⟩ := List.mem_filter.mp hmem
    exact ⟨hmem, hkey, of_decide_eq_true hshape⟩
  · cases hlookup

lemma lookup_foldl_insert_eq_none {es : List CacheEntry} {loaded : Entries}
    (h : (es.foldl (fun loaded e => loaded.insert e.keyHash e) loaded).lookup k = none) :
    loaded.lookup k = none ∧ ∀ e ∈ es, e.keyHash ≠ k := by
  induction es generalizing loaded with
  | nil => exact ⟨h, by simp⟩
  | cons e es ih =>
    obtain ⟨hlookup, hother⟩ := ih h
    have hk : k ≠ e.keyHash := by
      rintro rfl
      rw [AList.lookup_insert] at hlookup
      cases hlookup
    rw [AList.lookup_insert_ne hk] at hlookup
    exact ⟨hlookup, List.forall_mem_cons.mpr ⟨Ne.symm hk, hother⟩⟩

variable {codec : Codec} {cache : ResponseCache} {bytes : Bytes}

lemma decodeCacheBytes_encodeBinary (h : encodeBinary codec cache = .ok bytes) :
    decodeCacheBytes codec bytes = .ok (values cache.entries) := by
  simp only [encodeBinary, Checked.bind_eq_ok, Checked.pure_eq_ok] at h
  obtain ⟨raw, hraw, packed, hpacked, rfl⟩ := h
  have hread : decodeCacheBytes codec (cacheMagic ++ [cacheVersion] ++ packed) =
      codec.decodeAll packed >>= codec.fromSlice := by
    simp [decodeCacheBytes, cacheMagic, cacheVersion, List.isPrefixOf]
  rw [hread, codec.decode_encode raw packed hpacked]
  exact codec.fromSlice_toVec _ _ hraw

/-- **What is flushed is what is opened**: a process finds the entries of its own shape, as they were, under
their keys, and no others. -/
theorem openWith_flush (hkeyed : Keyed cache.entries) (h : encodeBinary codec cache = .ok bytes)
    (maxSizeMb shapeVersion k : ℕ) (e : CacheEntry) :
    (openWith codec (some bytes) maxSizeMb shapeVersion).entries.lookup k = some e ↔
      cache.entries.lookup k = some e ∧ e.shapeVersion = shapeVersion := by
  have hentries : (openWith codec (some bytes) maxSizeMb shapeVersion).entries =
      load shapeVersion (values cache.entries) := by
    rw [openWith, Option.bind_some, decodeCacheBytes_encodeBinary h]
    rfl
  rw [hentries]
  constructor
  · intro hlookup
    obtain ⟨hmem, rfl, hshape⟩ := lookup_load hlookup
    exact ⟨(mem_values hkeyed).mp hmem, hshape⟩
  · rintro ⟨hlookup, hshape⟩
    obtain rfl := hkeyed k e hlookup
    have hmem : e ∈ (values cache.entries).filter (·.shapeVersion = shapeVersion) :=
      List.mem_filter.mpr ⟨(mem_values hkeyed).mpr hlookup, decide_eq_true hshape⟩
    cases hloaded : (load shapeVersion (values cache.entries)).lookup e.keyHash with
    | none => exact absurd rfl ((lookup_foldl_insert_eq_none hloaded).2 e hmem)
    | some e' =>
      obtain ⟨hmem', hkey, -⟩ := lookup_load hloaded
      have hlookup' := (mem_values hkeyed).mp hmem'
      rw [hkey, hlookup] at hlookup'
      rw [Option.some.inj hlookup']

theorem openWith_flush_single : ∃ bytes, encodeBinary Sample.codec Sample.single = .ok bytes ∧
    (openWith Sample.codec (some bytes) 1 3).entries.lookup 7 = some (Sample.entry 7 5) := by
  have hkeyed : Keyed Sample.single.entries := Keyed.insert (fun k e h => by cases h) rfl
  refine ⟨_, rfl, (openWith_flush hkeyed rfl 1 3 7 _).mpr ⟨rfl, rfl⟩⟩

end Cache
end NestWeaver
