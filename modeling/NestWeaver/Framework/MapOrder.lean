import NestWeaver.Framework.FirstSeen

/-!
# The entries of a map in some order

A hash map built from a list keeps of each key the last element (`lastOf`), and visits its entries in an
order of its own (`MapOrder`).  What is proved for every order holds however the map is laid out.
-/

set_option linter.all false

namespace NestWeaver

variable {α κ ν : Type*} [DecidableEq κ]

/-- Of the elements with this key the last. -/
def lastOf (key : α → κ) (xs : List α) (k : κ) : Option α := xs.reverse.find? fun x => key x = k

variable {key : α → κ} {xs : List α} {k : κ} {x : α}

lemma lastOf_eq_none : lastOf key xs k = none ↔ ∀ x ∈ xs, key x ≠ k := by
  simp [lastOf, List.find?_eq_none]

lemma mem_of_lastOf (h : lastOf key xs k = some x) : x ∈ xs ∧ key x = k :=
  ⟨List.mem_reverse.mp (List.mem_of_find?_eq_some h), by simpa using List.find?_some h⟩

lemma lastOf_isSome : (lastOf key xs k).isSome ↔ ∃ x ∈ xs, key x = k := by
  rw [Option.isSome_iff_ne_none, ne_eq, lastOf_eq_none]
  push Not
  rfl

lemma lastOf_isSome_of_mem (key : α → κ) (hx : x ∈ xs) : (lastOf key xs (key x)).isSome :=
  lastOf_isSome.mpr ⟨x, hx, rfl⟩

lemma lastOf_concat (key : α → κ) (xs : List α) (x : α) : lastOf key (xs ++ [x]) (key x) = some x := by
  simp [lastOf]

/-- An order in which the entries of a map are visited. -/
structure MapOrder (lookup : κ → Option ν) where
  entries : List (κ × ν)
  nodup : (entries.map Prod.fst).Nodup
  mem_entries : ∀ k v, (k, v) ∈ entries ↔ lookup k = some v

/-- The entries of a map built from a list, those of the last elements first. -/
def MapOrder.collect (key : α → κ) (xs : List α) : MapOrder (lastOf key xs) where
  entries := (firstSeen key xs.reverse).map fun x => (key x, x)
  nodup := by
    rw [List.map_map]
    exact nodup_firstSeen key xs.reverse
  mem_entries k v := by
    rw [List.mem_map]
    constructor
    · rintro ⟨x, hx, heq⟩
      obtain ⟨rfl, rfl⟩ := Prod.mk.inj heq
      exact mem_firstSeen.mp hx
    · intro h
      obtain ⟨-, rfl⟩ := mem_of_lastOf h
      exact ⟨v, mem_firstSeen.mpr h, rfl⟩

namespace MapOrder

variable {lookup : κ → Option ν} (m : MapOrder lookup)

omit [DecidableEq κ] in
lemma eq_of_key {e e' : κ × ν} (he : e ∈ m.entries) (he' : e' ∈ m.entries) (h : e.1 = e'.1) : e = e' :=
  List.inj_on_of_nodup_map m.nodup he he' h

/-- Any entry can be visited first. -/
lemma exists_front [DecidableEq ν] {e : κ × ν} (he : e ∈ m.entries) :
    ∃ m' : MapOrder lookup, ∃ rest, m'.entries = e :: rest := by
  have hperm : (e :: m.entries.erase e).Perm m.entries := (List.perm_cons_erase he).symm
  refine ⟨⟨e :: m.entries.erase e, ?_, fun k v => ?_⟩, _, rfl⟩
  · exact (hperm.map Prod.fst).nodup_iff.mpr m.nodup
  · rw [hperm.mem_iff, m.mem_entries]

end MapOrder

end NestWeaver
