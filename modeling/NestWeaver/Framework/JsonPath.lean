import NestWeaver.Framework.Json

/-!
# Paths in JSON values

A path is a sequence of fields and positions.  What lies at a path can be rewritten in its place,
and a rewriting leaves alone what lies at a path that parts from it at a field.
-/

set_option linter.all false

namespace NestWeaver
namespace Json

inductive Step
  | key (k : String)
  | index (i : ℕ)
  deriving DecidableEq, Repr

/-- What a step leads to; null where there is nothing. -/
def Step.of (v : Json) : Step → Json
  | .key k => v.getD k
  | .index i => v.item i

/-- The value at a path. -/
def follow (v : Json) (path : List Step) : Json := path.foldl Step.of v

/-- Rewriting the value at a path. -/
def modifyAt (f : Json → Json) : List Step → Json → Json
  | [], v => f v
  | .key k :: rest, v => v.set k (modifyAt f rest (v.getD k))
  | .index i :: rest, v => v.setItem i (modifyAt f rest (v.item i))

/-- The last field of a path, or else the one the path starts in. -/
def lastKey (key : String) : List Step → String
  | [] => key
  | .key k :: rest => lastKey k rest
  | .index _ :: rest => lastKey key rest

/-- A path leads from a value to one inside it. -/
inductive Leads : Json → List Step → Json → Prop
  | nil (v : Json) : Leads v [] v
  | field {v u w : Json} {k : String} {rest : List Step} (hget : v.get k = some u)
      (h : Leads u rest w) : Leads v (.key k :: rest) w
  | item {items : List Json} {u w : Json} {i : ℕ} {rest : List Step} (hget : items[i]? = some u)
      (h : Leads u rest w) : Leads (.arr items) (.index i :: rest) w

variable {v u w : Json} {path front rest : List Step} {f : Json → Json} {key : String}

lemma lastKey_append (key : String) (front rest : List Step) :
    lastKey key (front ++ rest) = lastKey (lastKey key front) rest := by
  induction front generalizing key with
  | nil => rfl
  | cons step front ih => cases step <;> exact ih _

lemma item_of_getElem? {items : List Json} {i : ℕ} (h : items[i]? = some u) :
    (Json.arr items).item i = u := by
  simp [item, asArr, h]

lemma Leads.follow_eq (h : Leads v path w) : follow v path = w := by
  induction h with
  | nil v => rfl
  | field hget h ih =>
    rw [follow, List.foldl_cons, Step.of, getD_of_get hget]
    exact ih
  | item hget h ih =>
    rw [follow, List.foldl_cons, Step.of, item_of_getElem? hget]
    exact ih

lemma Leads.split (h : Leads v (front ++ rest) w) : ∃ u, Leads v front u ∧ Leads u rest w := by
  induction front generalizing v with
  | nil => exact ⟨v, .nil v, h⟩
  | cons step front ih =>
    cases h with
    | field hget h =>
      obtain ⟨u, hfront, hrest⟩ := ih h
      exact ⟨u, .field hget hfront, hrest⟩
    | item hget h =>
      obtain ⟨u, hfront, hrest⟩ := ih h
      exact ⟨u, .item hget hfront, hrest⟩

lemma modifyAt_append (f : Json → Json) (front rest : List Step) (v : Json) :
    modifyAt f (front ++ rest) v = modifyAt (modifyAt f rest) front v := by
  induction front generalizing v with
  | nil => rfl
  | cons step front ih => cases step <;> simp only [List.cons_append, modifyAt, ih]

/-- What lies at a path that parts from the rewritten one at a field stays. -/
lemma Leads.modifyAt_of_ne {k k' : String} {rest' : List Step} (hne : k ≠ k')
    (h : Leads v (front ++ Step.key k :: rest) w) (h' : Leads v (front ++ Step.key k' :: rest') u) :
    Leads (modifyAt f (front ++ Step.key k' :: rest') v) (front ++ Step.key k :: rest) w := by
  induction front generalizing v with
  | nil =>
    cases h with
    | field hget h =>
      refine .field ?_ h
      rw [List.nil_append, modifyAt, get_set_ne hne, hget]
  | cons step front ih =>
    cases h with
    | field hget h =>
      cases h' with
      | field hget' h' =>
        obtain rfl := Option.some.inj (hget.symm.trans hget')
        refine .field (get_set_self (isObject_of_get hget) _ _) ?_
        rw [getD_of_get hget]
        exact ih h h'
    | item hget h =>
      cases h' with
      | item hget' h' =>
        obtain rfl := Option.some.inj (hget.symm.trans hget')
        simp only [List.cons_append, modifyAt, setItem, item_of_getElem? hget]
        refine .item ?_ (ih h h')
        rw [List.getElem?_set_self (List.getElem?_eq_some_iff.mp hget).1]

/-- A path that is not empty, by its last step. -/
lemma Leads.dropLast {step : Step} (h : Leads v path w) (hlast : path.getLast? = some step) :
    ∃ u, Leads v path.dropLast u ∧ Leads u [step] w ∧ path = path.dropLast ++ [step] := by
  have hpath : path = path.dropLast ++ [step] := by
    have hne : path ≠ [] := fun hnil => by simp [hnil] at hlast
    have hstep : path.getLast hne = step := by
      rw [List.getLast?_eq_some_getLast hne] at hlast
      exact Option.some.inj hlast
    rw [← hstep, List.dropLast_append_getLast]
  rw [hpath] at h
  obtain ⟨u, hfront, hrest⟩ := h.split
  exact ⟨u, hfront, hrest, hpath⟩

/-! ## Equal values -/

lemma get_eq_lookup (fields : List (String × Json)) (key : String) :
    (Json.obj fields).get key = fields.lookup key := by
  induction fields with
  | nil => rfl
  | cons f fields ih =>
    rw [get_obj_cons, List.lookup_cons, ih]
    by_cases hf : f.1 = key
    · simp [hf]
    · have hne : (key == f.1) = false := by simpa using fun heq => hf heq.symm
      simp [hf, hne]

lemma mem_of_get {fields : List (String × Json)} (h : (Json.obj fields).get key = some u) :
    (key, u) ∈ fields := by
  rw [get_eq_lookup] at h
  induction fields with
  | nil => cases h
  | cons f fields ih =>
    rw [List.lookup_cons] at h
    by_cases hf : key = f.1
    · simp only [hf, BEq.rfl, Option.some.injEq] at h
      rw [hf, ← h]
      exact List.mem_cons_self
    · have hne : (key == f.1) = false := by simpa using hf
      simp only [hne] at h
      exact List.mem_cons_of_mem _ (ih h)

lemma fieldsEqual_get {fields fields' : List (String × Json)} (h : fieldsEqual fields fields' = true)
    (hmem : (key, u) ∈ fields) : ∃ u', (Json.obj fields').get key = some u' ∧ u.equal u' = true := by
  induction fields with
  | nil => cases hmem
  | cons f fields ih =>
    obtain ⟨k, v⟩ := f
    rw [fieldsEqual, Bool.and_eq_true] at h
    rcases List.mem_cons.mp hmem with heq | hmem
    · obtain ⟨rfl, rfl⟩ := Prod.mk.inj heq
      obtain ⟨hv, -⟩ := h
      rw [get_eq_lookup]
      split at hv
      · rename_i v' hv'
        exact ⟨v', hv', hv⟩
      · cases hv
    · exact ih h.2 hmem

lemma itemsEqual_getElem? {items items' : List Json} (h : itemsEqual items items' = true) {i : ℕ}
    (hget : items[i]? = some u) : ∃ u', items'[i]? = some u' ∧ u.equal u' = true := by
  induction items generalizing items' i with
  | nil => cases hget
  | cons v items ih =>
    cases items' with
    | nil => cases h
    | cons v' items' =>
      rw [itemsEqual, Bool.and_eq_true] at h
      cases i with
      | zero =>
        obtain rfl : v = u := by simpa using hget
        exact ⟨v', rfl, h.1⟩
      | succ i => exact ih h.2 (by simpa using hget)

/-- A path to a text leads to the same text in an equal value. -/
lemma Leads.of_equal {s : String} (h : Leads v path (.str s)) (heq : v.equal u = true) :
    Leads u path (.str s) := by
  generalize hw : Json.str s = w at h
  induction h generalizing u with
  | nil v =>
    subst hw
    cases u with
    | str t =>
      have hst : s = t := by simpa [equal] using heq
      rw [hst]
      exact .nil _
    | _ => cases heq
  | @field v v' w k rest hget h ih =>
    obtain ⟨fields, rfl⟩ := isObject_iff.mp (isObject_of_get hget)
    cases u with
    | obj fields' =>
      rw [equal, Bool.and_eq_true] at heq
      obtain ⟨u', hget', heq'⟩ := fieldsEqual_get heq.2 (mem_of_get hget)
      exact .field hget' (ih heq' hw)
    | _ => cases heq
  | @item items v' w i rest hget h ih =>
    cases u with
    | arr items' =>
      obtain ⟨u', hget', heq'⟩ := itemsEqual_getElem? (by simpa [equal] using heq) hget
      exact .item hget' (ih heq' hw)
    | _ => cases heq

end Json
end NestWeaver
