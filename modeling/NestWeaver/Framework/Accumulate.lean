import Mathlib.Data.List.Dedup
import Mathlib.Data.List.Induction
import Mathlib.Data.List.Nodup
import Mathlib.Order.Lattice.Nat

/-!
# Entries that accumulate

A keyed collection built from a list: the first element of a key makes an entry, and each later one
updates it (`accumulate`).  The entry of a key is what its own elements make, one after the other
(`mem_accumulate`); where the least number of each key is kept, it is that (`mem_leasts`).
-/

set_option linter.all false

namespace NestWeaver

variable {α β κ : Type*} [DecidableEq κ]

/-- The entry with this key is updated; where there is none, one is added. -/
def upsert (key : α → κ) (k : κ) (new : α) (update : α → α) : List α → List α
  | [] => [new]
  | e :: es => if key e = k then update e :: es else e :: upsert key k new update es

/-- The entries of the elements. -/
def accumulate (key : α → κ) (keyOf : β → κ) (new : β → α) (add : β → α → α) (bs : List β) : List α :=
  bs.foldl (fun es b => upsert key (keyOf b) (new b) (add b) es) []

/-- What some elements of one key make. -/
def groupEntry (new : β → α) (add : β → α → α) : List β → Option α
  | [] => none
  | b :: bs => some (bs.foldl (fun e b => add b e) (new b))

variable {key : α → κ} {keyOf : β → κ} {new : β → α} {add : β → α → α} {k : κ} {bs : List β} {es : List α}

lemma groupEntry_concat (bs : List β) (b : β) :
    groupEntry new add (bs ++ [b]) = some (((groupEntry new add bs).map (add b)).getD (new b)) := by
  cases bs with
  | nil => rfl
  | cons b' bs => simp [groupEntry]

/-- A search for a key after an update of one. -/
lemma find?_upsert {newEntry : α} {update : α → α} (hnew : key newEntry = k)
    (hupdate : ∀ e, key e = k → key (update e) = k) (k' : κ) :
    (upsert key k newEntry update es).find? (fun e => key e = k') =
      if k' = k then some (((es.find? fun e => key e = k).map update).getD newEntry)
      else es.find? fun e => key e = k' := by
  induction es with
  | nil =>
    by_cases hk : k' = k
    · simp [upsert, hk, hnew]
    · simp [upsert, hk, hnew, Ne.symm hk]
  | cons e es ih =>
    rw [upsert]
    by_cases he : key e = k
    · rw [if_pos he]
      by_cases hk : k' = k
      · subst hk
        simp [he, hupdate e he]
      · have hne : key e ≠ k' := fun h => hk (h.symm.trans he)
        have hne' : key (update e) ≠ k' := by rw [hupdate e he]; exact Ne.symm hk
        simp [hk, hne, hne']
    · rw [if_neg he]
      by_cases hek : key e = k'
      · have hk : k' ≠ k := fun h => he (hek.trans h)
        simp [hek, hk]
      · rw [List.find?_cons_of_neg (by simpa using hek), ih]
        simp [he, hek]

lemma map_key_upsert {newEntry : α} {update : α → α} (hnew : key newEntry = k)
    (hupdate : ∀ e, key e = k → key (update e) = k) :
    (upsert key k newEntry update es).map key =
      if k ∈ es.map key then es.map key else es.map key ++ [k] := by
  induction es with
  | nil => simp [upsert, hnew]
  | cons e es ih =>
    rw [upsert]
    by_cases he : key e = k
    · simp [he, hupdate e he]
    · simp only [if_neg he, List.map_cons, ih, List.mem_cons, Ne.symm he, false_or]
      split_ifs
      · rfl
      · rfl

lemma accumulate_concat (bs : List β) (b : β) :
    accumulate key keyOf new add (bs ++ [b]) =
      upsert key (keyOf b) (new b) (add b) (accumulate key keyOf new add bs) := by
  rw [accumulate, List.foldl_append]
  rfl

section

variable (hnew : ∀ b, key (new b) = keyOf b)
  (hadd : ∀ b e, key e = keyOf b → key (add b e) = keyOf b)

include hnew hadd

/-- The entry of a key is what its own elements make. -/
lemma find?_accumulate (bs : List β) (k : κ) :
    (accumulate key keyOf new add bs).find? (fun e => key e = k) =
      groupEntry new add (bs.filter fun b => keyOf b = k) := by
  induction bs using List.reverseRecOn with
  | nil => rfl
  | append_singleton bs b ih =>
    rw [accumulate_concat, find?_upsert (hnew b) (hadd b), List.filter_append]
    by_cases hk : k = keyOf b
    · subst hk
      simp [ih, groupEntry_concat]
    · simp [hk, Ne.symm hk, ih]

/-- The keys of the entries are those of the elements. -/
lemma mem_map_key_accumulate {bs : List β} {k : κ} :
    k ∈ (accumulate key keyOf new add bs).map key ↔ k ∈ bs.map keyOf := by
  induction bs using List.reverseRecOn with
  | nil => exact Iff.rfl
  | append_singleton bs b ih =>
    rw [accumulate_concat, map_key_upsert (hnew b) (hadd b), List.map_append, List.mem_append, ← ih,
      List.map_singleton, List.mem_singleton]
    split_ifs with hmem
    · exact (or_iff_left_of_imp fun h => h ▸ hmem).symm
    · rw [List.mem_append, List.mem_singleton]

lemma nodup_accumulate (bs : List β) : ((accumulate key keyOf new add bs).map key).Nodup := by
  induction bs using List.reverseRecOn with
  | nil => exact List.nodup_nil
  | append_singleton bs b ih =>
    rw [accumulate_concat, map_key_upsert (hnew b) (hadd b)]
    split_ifs with hmem
    · exact ih
    · rw [← List.concat_eq_append]
      exact ih.concat hmem

lemma mem_accumulate {e : α} : e ∈ accumulate key keyOf new add bs ↔
    groupEntry new add (bs.filter fun b => keyOf b = key e) = some e := by
  rw [← find?_accumulate hnew hadd]
  constructor
  · intro he
    cases hfind : (accumulate key keyOf new add bs).find? fun e' => key e' = key e with
    | none => exact absurd (List.find?_eq_none.mp hfind e he) (by simp)
    | some e' =>
      have hkey : key e' = key e := by simpa using List.find?_some hfind
      have hinj := List.inj_on_of_nodup_map (nodup_accumulate hnew hadd bs)
      rw [hinj (List.mem_of_find?_eq_some hfind) he hkey]
  · exact List.mem_of_find?_eq_some

/-- One entry for each key, in some order. -/
lemma accumulate_perm (bs : List β) : (accumulate key keyOf new add bs).Perm
    ((bs.map keyOf).dedup.filterMap fun k => groupEntry new add (bs.filter fun b => keyOf b = k)) := by
  have hkey : ∀ k e, groupEntry new add (bs.filter fun b => keyOf b = k) = some e → key e = k := by
    intro k e h
    rw [← find?_accumulate hnew hadd] at h
    simpa using List.find?_some h
  have hnodup : ((bs.map keyOf).dedup.filterMap fun k =>
      groupEntry new add (bs.filter fun b => keyOf b = k)).Nodup := by
    refine (List.nodup_dedup _).filterMap fun k k' e hk hk' => ?_
    exact (hkey k e hk).symm.trans (hkey k' e hk')
  rw [List.perm_ext_iff_of_nodup (nodup_accumulate hnew hadd bs).of_map hnodup]
  intro e
  rw [mem_accumulate hnew hadd, List.mem_filterMap]
  constructor
  · intro h
    refine ⟨key e, ?_, h⟩
    cases hgroup : bs.filter fun b => keyOf b = key e with
    | nil =>
      rw [hgroup] at h
      cases h
    | cons b rest =>
      have hb : b ∈ bs.filter fun b => keyOf b = key e := by simp [hgroup]
      obtain ⟨hb, hkeyb⟩ := List.mem_filter.mp hb
      exact List.mem_dedup.mpr (List.mem_map.mpr ⟨b, hb, of_decide_eq_true hkeyb⟩)
  · rintro ⟨k, -, h⟩
    rw [hkey k e h]
    exact h

end

/-! ## The least of each key -/

section Least

/-- The least number of each key. -/
def leasts (bs : List (κ × ℕ)) : List (κ × ℕ) :=
  accumulate Prod.fst Prod.fst id (fun new old => (old.1, min old.2 new.2)) bs

variable {bs : List (κ × ℕ)} {k : κ} {n : ℕ}

omit [DecidableEq κ] in
lemma isLeast_foldl (bs : List (κ × ℕ)) (b : κ × ℕ) :
    (bs.foldl (fun old new => (old.1, min old.2 new.2)) b).1 = b.1 ∧
      IsLeast {n | n ∈ (b :: bs).map Prod.snd}
        (bs.foldl (fun old new => (old.1, min old.2 new.2)) b).2 := by
  induction bs generalizing b with
  | nil => exact ⟨rfl, by simp [IsLeast, lowerBounds]⟩
  | cons c bs ih =>
    obtain ⟨hkey, hmem, hleast⟩ := ih (b.1, min b.2 c.2)
    refine ⟨hkey, ?_, fun n hn => ?_⟩
    · simp only [List.map_cons, Set.mem_ofPred_eq, List.mem_cons] at hmem ⊢
      obtain hmem | hmem := hmem
      · obtain hmin | hmin := min_choice b.2 c.2
        · exact .inl (hmem.trans hmin)
        · exact .inr (.inl (hmem.trans hmin))
      · exact .inr (.inr hmem)
    · simp only [List.map_cons, Set.mem_ofPred_eq, List.mem_cons] at hn
      have hfirst := hleast (a := min b.2 c.2) (by simp)
      obtain rfl | rfl | hn := hn
      · exact hfirst.trans (min_le_left _ _)
      · exact hfirst.trans (min_le_right _ _)
      · exact hleast (List.mem_cons_of_mem _ hn)

/-- The entry of a key is the least of its numbers. -/
lemma mem_leasts : (k, n) ∈ leasts bs ↔ IsLeast {n | (k, n) ∈ bs} n := by
  have hset : {n | (k, n) ∈ bs} = {n | n ∈ (bs.filter fun b => b.1 = k).map Prod.snd} := by
    ext n
    simp [List.mem_map]
  have hadd : ∀ new old : κ × ℕ, old.1 = new.1 → (old.1, min old.2 new.2).1 = new.1 := fun _ _ h => h
  rw [leasts, mem_accumulate (fun b => congrArg Prod.fst (id_eq b)) hadd, hset]
  cases hgroup : bs.filter fun b => b.1 = k with
  | nil => simp [groupEntry, IsLeast]
  | cons b rest =>
    have hb : b.1 = k := by
      have hmem : b ∈ bs.filter fun b => b.1 = k := by simp [hgroup]
      simpa using (List.mem_filter.mp hmem).2
    obtain ⟨hkey, hleast⟩ := isLeast_foldl rest b
    rw [groupEntry, Option.some_inj, Prod.ext_iff]
    constructor
    · rintro ⟨-, rfl⟩
      exact hleast
    · intro h
      exact ⟨hkey.trans hb, hleast.unique h⟩

/-- A search for a key finds the least of its numbers. -/
lemma find?_leasts : ((leasts bs).find? fun e => e.1 = k).map Prod.snd = some n ↔
    IsLeast {n | (k, n) ∈ bs} n := by
  rw [← mem_leasts]
  have hadd : ∀ new old : κ × ℕ, old.1 = new.1 → (old.1, min old.2 new.2).1 = new.1 := fun _ _ h => h
  have hnodup : ((leasts bs).map Prod.fst).Nodup :=
    nodup_accumulate (fun b => congrArg Prod.fst (id_eq b)) hadd bs
  constructor
  · intro h
    obtain ⟨e, hfind, rfl⟩ := Option.map_eq_some_iff.mp h
    have hkey : e.1 = k := by simpa using List.find?_some hfind
    rw [← hkey]
    exact List.mem_of_find?_eq_some hfind
  · intro hmem
    cases hfind : (leasts bs).find? fun e => e.1 = k with
    | none => exact absurd (List.find?_eq_none.mp hfind _ hmem) (by simp)
    | some e =>
      have hkey : e.1 = k := by simpa using List.find?_some hfind
      rw [List.inj_on_of_nodup_map hnodup (List.mem_of_find?_eq_some hfind) hmem hkey, Option.map_some]

/-- There is one entry when all have one key. -/
lemma leasts_eq_singleton : leasts bs = [(k, n)] ↔
    (∀ b ∈ bs, b.1 = k) ∧ IsLeast {n | (k, n) ∈ bs} n := by
  have hadd : ∀ new old : κ × ℕ, old.1 = new.1 → (old.1, min old.2 new.2).1 = new.1 := fun _ _ h => h
  have hnodup : ((leasts bs).map Prod.fst).Nodup :=
    nodup_accumulate (fun b => congrArg Prod.fst (id_eq b)) hadd bs
  have hentry : ∀ b ∈ bs, ∃ n, (b.1, n) ∈ leasts bs := by
    intro b hb
    have hsome : {n | (b.1, n) ∈ bs}.Nonempty := ⟨b.2, hb⟩
    exact ⟨_, mem_leasts.mpr ⟨Nat.sInf_mem hsome, fun _ => Nat.sInf_le⟩⟩
  constructor
  · intro h
    refine ⟨fun b hb => ?_, mem_leasts.mp (by simp [h])⟩
    obtain ⟨n', hn'⟩ := hentry b hb
    rw [h, List.mem_singleton] at hn'
    exact congrArg Prod.fst hn'
  · rintro ⟨hkeys, hleast⟩
    have hone : ∀ e ∈ leasts bs, e = (k, n) := by
      rintro ⟨k', n'⟩ he
      have he := mem_leasts.mp he
      obtain rfl : k' = k := hkeys _ he.1
      rw [he.unique hleast]
    refine List.perm_singleton.mp ((List.perm_ext_iff_of_nodup hnodup.of_map
      (List.nodup_singleton _)).mpr fun e => ⟨fun he => ?_, fun he => ?_⟩)
    · exact List.mem_singleton.mpr (hone e he)
    · rw [List.mem_singleton.mp he]
      exact mem_leasts.mpr hleast

end Least
end NestWeaver
