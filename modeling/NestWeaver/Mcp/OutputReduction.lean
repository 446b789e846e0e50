import NestWeaver.Mcp.OutputBudget

/-!
# What a reduction keeps

A reduction leaves prefixes of arrays, clips only long texts that name nothing, and otherwise writes
counters, flags and cursors.  Where an array has a cursor, the cursor moves with it: this is
`Reduced`, and it is kept by every cut (`shrink_reduced`) and so by the finalizer
(`finalize_reduced`).
-/

set_option linter.all false

namespace NestWeaver
namespace Mcp
namespace OutputBudget

open Json

variable {hash : String → String} {v v' v'' u u' w : Json} {key k : String} {path : List Step}

/-! ## Reduced values -/

def isContainer : Json → Bool
  | .arr _ => true
  | .obj _ => true
  | _ => false

/-- The fields that a cut writes beside the array or text it cuts. -/
def writtenKeys : List String :=
  counters.flatMap Prod.snd ++ cursors.map (·.2.2) ++
    ["has_more", "members_truncated", "members_omitted", "retry_guidance",
      "low_confidence_truncated", "truncated", "next_body_offset", "body_truncated"]

def Written (key : String) (v : Json) : Prop := key ∈ writtenKeys ∧ isContainer v = false

/-- The cursor of an array: if the array was cut, the offset of what follows is the old offset and
the number of items that are left. -/
def CursorKept (c : String × String × String) (parent parent' : Json) : Prop :=
  ∀ items items' offset, parent.get c.1 = some (.arr items) → parent'.get c.1 = some (.arr items') →
    parent.get c.2.1 = some (natJson offset) → offset + items.length ≤ u64Max →
    (parent.get c.2.2 = some .null ∨ ∃ n, parent.get c.2.2 = some (.num n)) →
    parent'.get c.2.1 = some (natJson offset) ∧
      ((items'.length = items.length ∧ parent'.get c.2.2 = parent.get c.2.2 ∧
        ∀ b, c.1 = "unreachable_symbols" → parent.get "has_more" = some (.bool b) →
          parent'.get "has_more" = some (.bool b)) ∨
      (items'.length < items.length ∧
        parent'.get c.2.2 = some (natJson (offset + items'.length)) ∧
        ∀ b, c.1 = "unreachable_symbols" → parent.get "has_more" = some (.bool b) →
          parent'.get "has_more" = some (.bool true)))

/-- What is left of a value under a field of the given name. -/
inductive Reduced : String → Json → Json → Prop
  | refl (key : String) (v : Json) : Reduced key v v
  | text {key s s' : String} (long : 128 < strLen s) (plain : identity key = false) :
      Reduced key (.str s) (.str s')
  | array {key : String} {items items' : List Json} (length : items'.length ≤ items.length)
      (nonempty : items ≠ [] → items' ≠ [])
      (rows : ∀ (i : ℕ) u u', items[i]? = some u → items'[i]? = some u' → Reduced key u u') :
      Reduced key (.arr items) (.arr items')
  | object {key : String} {fields fields' : List (String × Json)}
      (keys : ∀ k, ((Json.obj fields).get k).isSome → ((Json.obj fields').get k).isSome)
      (values : ∀ k u u', k ≠ "output_budget" → (Json.obj fields).get k = some u →
        (Json.obj fields').get k = some u' → ¬Written k u' → Reduced k u u')
      (cursor : ∀ c ∈ cursors, CursorKept c (.obj fields) (.obj fields')) :
      Reduced key (.obj fields) (.obj fields')

lemma CursorKept.refl (c : String × String × String) (parent : Json) : CursorKept c parent parent := by
  intro items items' offset hitems hitems' hoffset _ _
  obtain rfl : items = items' := by
    rw [hitems] at hitems'
    simpa using hitems'
  exact ⟨hoffset, .inl ⟨rfl, rfl, fun b _ hb => hb⟩⟩

lemma Reduced.arr_of_arr {items : List Json} (h : Reduced key (.arr items) v) :
    ∃ items', v = .arr items' ∧ items'.length ≤ items.length ∧ (items ≠ [] → items' ≠ []) ∧
      ∀ (i : ℕ) u u', items[i]? = some u → items'[i]? = some u' → Reduced key u u' := by
  cases h with
  | refl =>
    refine ⟨items, rfl, le_rfl, id, fun i u u' hu hu' => ?_⟩
    obtain rfl := Option.some.inj (hu.symm.trans hu')
    exact .refl _ _
  | array length nonempty rows => exact ⟨_, rfl, length, nonempty, rows⟩

lemma Reduced.not_container (h : Reduced key v v') (hv : isContainer v = false) :
    isContainer v' = false := by
  cases h with
  | refl => exact hv
  | text => rfl
  | array => cases hv
  | object => cases hv

/-- The value of a field that is not rewritten. -/
lemma Reduced.field (h : Reduced key v v') (hget : v.get k = some u) (hk : k ≠ "output_budget") :
    ∃ u', v'.get k = some u' ∧ (Written k u' ∨ Reduced k u u') := by
  cases h with
  | refl => exact ⟨u, hget, .inr (.refl _ _)⟩
  | text => cases hget
  | array => cases hget
  | object keys values cursor =>
    obtain ⟨u', hget'⟩ := Option.isSome_iff_exists.mp (keys k (hget ▸ rfl))
    refine ⟨u', hget', ?_⟩
    by_cases hwritten : Written k u'
    · exact .inl hwritten
    · exact .inr (values k u u' hk hget hget' hwritten)

lemma Reduced.take (key : String) (items : List Json) {n : ℕ} (hn : 0 < n) :
    Reduced key (.arr items) (.arr (items.take n)) := by
  have hnonempty : items ≠ [] → items.take n ≠ [] := by
    intro hitems hnil
    obtain hzero | hnil := List.take_eq_nil_iff.mp hnil
    · exact hn.ne' hzero
    · exact hitems hnil
  refine .array (List.take_sublist n items).length_le hnonempty fun i u u' hu hu' => ?_
  rw [List.getElem?_take] at hu'
  split_ifs at hu'
  obtain rfl := Option.some.inj (hu.symm.trans hu')
  exact .refl _ _

lemma cursorKeys {c : String × String × String} (hc : c ∈ cursors) :
    c.1 ∉ writtenKeys ∧ c.2.1 ∉ writtenKeys ∧ c.1 ≠ "output_budget" ∧ c.2.1 ≠ "output_budget" := by
  revert c
  decide

lemma CursorKept.trans {c : String × String × String} {p p' p'' : Json} (hc : c ∈ cursors)
    (hred : Reduced key p p') (h : CursorKept c p p') (h' : CursorKept c p' p'') :
    CursorKept c p p'' := by
  intro items items'' offset hitems hitems'' hoffset hmax hnext
  obtain ⟨harray, -, hbudget, -⟩ := cursorKeys hc
  obtain ⟨u', hu', hwritten | hred'⟩ := hred.field hitems hbudget
  · exact absurd hwritten.1 harray
  · obtain ⟨items', rfl, hle, -, -⟩ := hred'.arr_of_arr
    obtain ⟨hoffset', hmoved⟩ := h items items' offset hitems hu' hoffset hmax hnext
    have hnext' : p'.get c.2.2 = some .null ∨ ∃ n, p'.get c.2.2 = some (.num n) := by
      obtain ⟨-, hsame, -⟩ | ⟨-, hcut, -⟩ := hmoved
      · rwa [hsame]
      · exact .inr ⟨_, hcut⟩
    obtain ⟨hoffset'', hmoved'⟩ := h' items' items'' offset hu' hitems'' hoffset'
      (le_trans (Nat.add_le_add_left hle offset) hmax) hnext'
    refine ⟨hoffset'', ?_⟩
    obtain ⟨hlen, hsame, hmore⟩ | ⟨hlt, hcut, hmore⟩ := hmoved
    · obtain ⟨hlen', hsame', hmore'⟩ | ⟨hlt', hcut', hmore'⟩ := hmoved'
      · exact .inl ⟨hlen'.trans hlen, hsame'.trans hsame, fun b hb hb' => hmore' b hb (hmore b hb hb')⟩
      · exact .inr ⟨hlt'.trans_eq hlen, hcut', fun b hb hb' => hmore' b hb (hmore b hb hb')⟩
    · obtain ⟨hlen', hsame', hmore'⟩ | ⟨hlt', hcut', hmore'⟩ := hmoved'
      · refine .inr ⟨hlen'.trans_lt hlt, ?_, fun b hb hb' => hmore' true hb (hmore b hb hb')⟩
        rw [hsame', hcut, hlen']
      · exact .inr ⟨hlt'.trans hlt, hcut', fun b hb hb' => hmore' true hb (hmore b hb hb')⟩

lemma Reduced.trans (h : Reduced key v v') (h' : Reduced key v' v'') : Reduced key v v'' := by
  induction h generalizing v'' with
  | refl => exact h'
  | text long plain =>
    cases h' with
    | refl => exact .text long plain
    | text => exact .text long plain
  | array length nonempty rows ih =>
    obtain ⟨items'', rfl, hle, hnonempty, hrows⟩ := h'.arr_of_arr
    refine .array (hle.trans length) (fun hne => hnonempty (nonempty hne)) fun i u u'' hu hu'' => ?_
    have hlt := (List.getElem?_eq_some_iff.mp hu'').1.trans_le hle
    exact ih i u _ hu (List.getElem?_eq_getElem hlt) (hrows i _ u'' (List.getElem?_eq_getElem hlt) hu'')
  | @object key fields fields' keys values cursor ih =>
    have hfirst : Reduced key (.obj fields) (.obj fields') := .object keys values cursor
    have hlast : ∃ fields'', v'' = .obj fields'' ∧
        ∀ c ∈ cursors, CursorKept c (.obj fields') (.obj fields'') := by
      cases h' with
      | refl => exact ⟨fields', rfl, fun c _ => .refl c _⟩
      | object keys' values' cursor' => exact ⟨_, rfl, cursor'⟩
    obtain ⟨fields'', rfl, hcursor⟩ := hlast
    refine .object (fun k hk => ?_) (fun k u u'' hk hu hu'' hopen => ?_)
      fun c hc => (cursor c hc).trans hc hfirst (hcursor c hc)
    · by_cases hbudget : k = "output_budget"
      · -- `output_budget` is a field like the others here
        cases h' with
        | refl => exact keys k hk
        | object keys' values' cursor' => exact keys' k (keys k hk)
      · obtain ⟨u', hu'⟩ := Option.isSome_iff_exists.mp (keys k hk)
        obtain ⟨u'', hu'', -⟩ := h'.field hu' hbudget
        exact hu'' ▸ rfl
    · obtain ⟨u', hu'⟩ := Option.isSome_iff_exists.mp (keys k (hu ▸ rfl))
      obtain ⟨w, hw, hwritten | hred⟩ := h'.field hu' hk
      · obtain rfl := Option.some.inj (hw.symm.trans hu'')
        exact absurd hwritten hopen
      · obtain rfl := Option.some.inj (hw.symm.trans hu'')
        by_cases hwritten : Written k u'
        · exact absurd ⟨hwritten.1, hred.not_container hwritten.2⟩ hopen
        · exact ih k u u' hk hu hu' hwritten hred

/-! ## Changing a value in its place -/

/-- Two objects, two arrays of one length or two texts. -/
def Alike : Json → Json → Prop
  | .obj _, .obj _ => True
  | .arr items, .arr items' => items'.length = items.length
  | .str _, .str _ => True
  | _, _ => False

lemma CursorKept.of_alike {c : String × String × String}
    (h : ∀ q, q = c.1 ∨ q = c.2.1 ∨ q = c.2.2 ∨ q = "has_more" →
      v'.get q = v.get q ∨ ∃ u u', v.get q = some u ∧ v'.get q = some u' ∧ Alike u u') :
    CursorKept c v v' := by
  have hscalar : ∀ q u, q = c.1 ∨ q = c.2.1 ∨ q = c.2.2 ∨ q = "has_more" → v.get q = some u →
      (∀ u', ¬Alike u u') → v'.get q = some u := by
    intro q u hq hu hne
    obtain hsame | ⟨w, w', hw, -, halike⟩ := h q hq
    · exact hsame.trans hu
    · obtain rfl := Option.some.inj (hw.symm.trans hu)
      exact absurd halike (hne w')
  intro items items' offset hitems hitems' hoffset _ hnext
  refine ⟨hscalar _ _ (by simp) hoffset fun u' => by cases u' <;> exact id, .inl ⟨?_, ?_, ?_⟩⟩
  · obtain hsame | ⟨w, w', hw, hw', halike⟩ := h c.1 (by simp)
    · rw [hsame, hitems] at hitems'
      rw [Json.arr.inj (Option.some.inj hitems')]
    · obtain rfl := Option.some.inj (hw.symm.trans hitems)
      obtain rfl := Option.some.inj (hw'.symm.trans hitems')
      exact halike
  · obtain hnull | ⟨n, hnum⟩ := hnext
    · rw [hnull]
      exact hscalar _ _ (by simp) hnull fun u' => by cases u' <;> exact id
    · rw [hnum]
      exact hscalar _ _ (by simp) hnum fun u' => by cases u' <;> exact id
  · intro b _ hb
    exact hscalar _ _ (by simp) hb fun u' => by cases u' <;> exact id

lemma Reduced.setItem {items : List Json} {i : ℕ} (hget : items[i]? = some w)
    (hred : Reduced key w u) : Reduced key (.arr items) (.arr (items.set i u)) := by
  refine .array (by rw [List.length_set]) (fun hne hnil => hne (by simpa using hnil))
    fun j x x' hx hx' => ?_
  rw [List.getElem?_set] at hx'
  split_ifs at hx' with hij hlt
  · subst hij
    obtain rfl := Option.some.inj (hget.symm.trans hx)
    obtain rfl := Option.some.inj hx'
    exact hred
  · obtain rfl := Option.some.inj (hx.symm.trans hx')
    exact .refl _ _

/-- A change inside a value reduces it when it reduces the part that is changed. -/
lemma Reduced.modifyAt {f : Json → Json} (h : Leads v path w)
    (hred : Reduced (lastKey key path) w (f w)) (halike : Alike w (f w)) :
    Reduced key v (modifyAt f path v) ∧ Alike v (Json.modifyAt f path v) := by
  induction h generalizing key with
  | nil => exact ⟨hred, halike⟩
  | @field v u w k rest hget h ih =>
    obtain ⟨hinner, hinnerAlike⟩ := ih hred halike
    obtain ⟨fields, rfl⟩ := isObject_iff.mp (isObject_of_get hget)
    rw [Json.modifyAt, getD_of_get hget]
    refine ⟨.object (fun q hq => ?_) (fun q x x' _ hx hx' _ => ?_) fun c _ => .of_alike fun q _ => ?_,
      trivial⟩
    · rw [← Json.set, get_set]
      split_ifs
      · rfl
      · exact hq
    · rw [← Json.set, get_set] at hx'
      split_ifs at hx' with hqk
      · subst hqk
        obtain rfl := Option.some.inj (hget.symm.trans hx)
        obtain rfl := Option.some.inj hx'
        exact hinner
      · obtain rfl := Option.some.inj (hx.symm.trans hx')
        exact .refl _ _
    · rw [← Json.set, get_set]
      split_ifs with hqk
      · subst hqk
        exact .inr ⟨u, _, hget, rfl, hinnerAlike⟩
      · exact .inl rfl
  | @item items u w i rest hget h ih =>
    obtain ⟨hinner, -⟩ := ih hred halike
    rw [Json.modifyAt, item_of_getElem? hget]
    exact ⟨.setItem hget hinner, List.length_set⟩

/-! ## What is found to cut -/

/-- An array of several items, or a long text that names nothing. -/
def Cuttable (key : String) (w : Json) (array : Bool) : Prop :=
  (array = true ∧ ∃ items, w = .arr items ∧ 1 < items.length) ∨
    (array = false ∧ ∃ s, w = .str s ∧ 128 < strLen s ∧ identity key = false)

/-- A cut is of something inside a value. -/
def Found (path : List Step) (key : String) (v : Json) (cut : Cut) : Prop :=
  ∃ rest w, cut.path = path ++ rest ∧ Leads v rest w ∧ Cuttable (lastKey key rest) w cut.array

lemma offer_spec {best : Option Cut} {cut : Cut} (h : offer path key v best = some cut) :
    best = some cut ∨ Found path key v cut := by
  unfold offer at h
  split at h
  · rename_i size array hcandidate
    split_ifs at h
    · obtain rfl := Option.some.inj h
      refine .inr ⟨[], v, (List.append_nil _).symm, .nil v, ?_⟩
      cases v with
      | arr items =>
        simp only [candidate] at hcandidate
        split_ifs at hcandidate with hlen
        obtain ⟨-, rfl⟩ := Prod.mk.inj (Option.some.inj hcandidate)
        exact .inl ⟨rfl, items, rfl, hlen⟩
      | str s =>
        simp only [candidate] at hcandidate
        split_ifs at hcandidate with hlong
        obtain ⟨-, rfl⟩ := Prod.mk.inj (Option.some.inj hcandidate)
        exact .inr ⟨rfl, s, rfl, hlong.1, by simpa [lastKey] using hlong.2⟩
      | _ => cases hcandidate
    · exact .inl h
  · exact .inl h

lemma Found.field {fields : List (String × Json)} {cut : Cut}
    (h : Found (path ++ [Step.key k]) k u cut) (hget : (Json.obj fields).get k = some u) :
    Found path key (.obj fields) cut := by
  obtain ⟨rest, w, hpath, hleads, hcut⟩ := h
  exact ⟨.key k :: rest, w, by rw [hpath, List.append_assoc]; rfl, .field hget hleads, hcut⟩

lemma Found.item {items : List Json} {i : ℕ} {cut : Cut}
    (h : Found (path ++ [Step.index i]) key u cut) (hget : items[i]? = some u) :
    Found path key (.arr items) cut := by
  obtain ⟨rest, w, hpath, hleads, hcut⟩ := h
  exact ⟨.index i :: rest, w, by rw [hpath, List.append_assoc]; rfl, .item hget hleads, hcut⟩

mutual

/-- What the search finds is inside the value, or was found before. -/
lemma largest_spec (v : Json) (path : List Step) (key : String) (best : Option Cut) {cut : Cut}
    (h : largest path key best v = some cut) : best = some cut ∨ Found path key v cut := by
  match v with
  | .obj fields =>
    rw [largest] at h
    split_ifs at h
    · exact .inl h
    · obtain hoffer | hfound := largestFields_spec fields fields [] path
        (offer path key (.obj fields) best) [] rfl (fun k => by simp) h
      · exact offer_spec hoffer
      · exact .inr (hfound key)
  | .arr items =>
    rw [largest] at h
    split_ifs at h
    · exact .inl h
    · obtain hoffer | hfound := largestItems_spec items items [] path key
        (offer path key (.arr items) best) 0 rfl rfl h
      · exact offer_spec hoffer
      · exact .inr hfound
  | .str s =>
    rw [largest] at h
    · split_ifs at h
      · exact .inl h
      · exact offer_spec h
    all_goals exact nofun
  | .null =>
    rw [largest] at h
    · split_ifs at h
      · exact .inl h
      · exact offer_spec h
    all_goals exact nofun
  | .bool b =>
    rw [largest] at h
    · split_ifs at h
      · exact .inl h
      · exact offer_spec h
    all_goals exact nofun
  | .num n =>
    rw [largest] at h
    · split_ifs at h
      · exact .inl h
      · exact offer_spec h
    all_goals exact nofun

lemma largestFields_spec (fields all front : List (String × Json)) (path : List Step)
    (best : Option Cut) (seen : List String) {cut : Cut} (hall : all = front ++ fields)
    (hseen : ∀ k, k ∈ seen ↔ k ∈ front.map Prod.fst)
    (h : largestFields path best seen fields = some cut) :
    best = some cut ∨ ∀ key, Found path key (.obj all) cut := by
  match fields with
  | [] => exact .inl h
  | (k, v) :: rest =>
    rw [largestFields] at h
    obtain hbest | hfound := largestFields_spec rest all (front ++ [(k, v)]) path _ (k :: seen)
      (by rw [hall, List.append_assoc]; rfl) (fun q => by simp [hseen, or_comm]) h
    · split_ifs at hbest with hmem
      · exact .inl hbest
      · obtain hold | hinner := largest_spec v (path ++ [Step.key k]) k best hbest
        · exact .inl hold
        · refine .inr fun key => hinner.field ?_
          rw [hseen] at hmem
          rw [hall, get_eq_lookup, List.lookup_append, List.lookup_eq_none_iff.mpr, List.lookup_cons_self]
          · rfl
          · intro e he
            have hne : k ≠ e.1 := fun heq => hmem (heq ▸ List.mem_map_of_mem he)
            simpa using hne
    · exact .inr hfound

lemma largestItems_spec (items all front : List Json) (path : List Step) (key : String)
    (best : Option Cut) (i : ℕ) {cut : Cut} (hall : all = front ++ items) (hi : i = front.length)
    (h : largestItems path key best i items = some cut) :
    best = some cut ∨ Found path key (.arr all) cut := by
  match items with
  | [] => exact .inl h
  | v :: rest =>
    rw [largestItems] at h
    obtain hbest | hfound := largestItems_spec rest all (front ++ [v]) path key _ (i + 1)
      (by rw [hall, List.append_assoc]; rfl) (by simp [hi]) h
    · obtain hold | hinner := largest_spec v (path ++ [Step.index i]) key best hbest
      · exact .inl hold
      · exact .inr (hinner.item (by simp [hall, hi]))
    · exact .inr hfound

end

/-! ## What is written around a cut -/

/-- Scalars are written to some fields of an object, and nothing else. -/
structure Edits (keys : List String) (p p' : Json) : Prop where
  object : p'.isObject = p.isObject
  same : ∀ q, q ∉ keys → p'.get q = p.get q
  wrote : ∀ q, p'.get q = p.get q ∨ ∃ u, p'.get q = some u ∧ isContainer u = false

section Edits

variable {keys keys' : List String} {p p' p'' : Json}

lemma Edits.refl (keys : List String) (p : Json) : Edits keys p p := ⟨rfl, fun _ _ => rfl, fun _ => .inl rfl⟩

lemma Edits.trans (h : Edits keys p p') (h' : Edits keys p' p'') : Edits keys p p'' where
  object := h'.object.trans h.object
  same q hq := (h'.same q hq).trans (h.same q hq)
  wrote q := by
    obtain hsame | hscalar := h'.wrote q
    · rw [hsame]
      exact h.wrote q
    · exact .inr hscalar

lemma Edits.mono (h : Edits keys p p') (hsub : ∀ q ∈ keys, q ∈ keys') : Edits keys' p p' :=
  ⟨h.object, fun q hq => h.same q fun hmem => hq (hsub q hmem), h.wrote⟩

lemma Edits.set (hk : k ∈ keys) (hu : isContainer u = false) : Edits keys p (p.set k u) where
  object := isObject_set _ _ _
  same q hq := get_set_ne (fun heq : q = k => hq (heq ▸ hk)) _ _
  wrote q := by
    by_cases hqk : q = k
    · rw [hqk]
      cases p with
      | obj fields => exact .inr ⟨u, get_set_self rfl _ _, hu⟩
      | _ => exact .inl rfl
    · exact .inl (get_set_ne hqk _ _)

lemma Edits.setPresent (hk : k ∈ keys) (hu : isContainer u = false) :
    Edits keys p (setPresent p k u) := by
  unfold OutputBudget.setPresent
  split_ifs
  · exact .set hk hu
  · exact .refl _ _

end Edits

/-- What is written around a cut besides the cursor and `has_more`. -/
def noteKeys : List String :=
  counters.flatMap Prod.snd ++
    ["members_truncated", "members_omitted", "retry_guidance", "low_confidence_truncated",
      "truncated", "returned"]

lemma Edits.setWhen {c : Prop} [Decidable c] {keys : List String} {p : Json} (hk : k ∈ keys)
    (hu : isContainer u = false) : Edits keys p (setWhen c p k u) := by
  unfold OutputBudget.setWhen
  split_ifs
  · exact .set hk hu
  · exact .refl _ _

lemma noteMembers_edits (p : Json) (key : String) (keep : ℕ) :
    Edits noteKeys p (noteMembers p key keep) := by
  unfold noteMembers
  split_ifs
  · have htruncated : Edits noteKeys p (p.set "members_truncated" (.bool true)) :=
      .set (by decide) rfl
    refine htruncated.trans (Edits.trans ?_ (Edits.set (k := "retry_guidance") (by decide) rfl))
    cases asU64 ((p.set "members_truncated" (.bool true)).getD "size") with
    | none => exact .refl _ _
    | some size => exact .set (by decide) rfl
  · exact .refl _ _

lemma noteReturned_edits {p p' : Json} (h : noteReturned p = .ok p') : Edits noteKeys p p' := by
  unfold noteReturned at h
  split at h
  · obtain rfl := Except.ok.inj h
    exact .set (by decide) rfl
  · cases h
  · obtain rfl := Except.ok.inj h
    exact .refl _ _

lemma noteBroken_edits {p p' : Json} {paired : Option String}
    (h : noteBroken p key paired = .ok p') : Edits noteKeys p p' := by
  unfold noteBroken at h
  split_ifs at h
  · have hlow : Edits noteKeys p (setWhen (key = "low_confidence" ∨ paired = some "low_confidence") p
        "low_confidence_truncated" (.bool true)) := .setWhen (by decide) rfl
    exact (hlow.trans (.setWhen (by decide) rfl)).trans (noteReturned_edits h)
  · obtain rfl := Except.ok.inj h
    exact .refl _ _

lemma counters_edits (p : Json) (key : String) (keep : ℕ) :
    Edits noteKeys p (((counters.lookup key).getD []).foldl
      (fun parent counter => setPresent parent counter (natJson keep)) p) := by
  have hfold : ∀ (l : List String) (q : Json), (∀ c ∈ l, c ∈ noteKeys) →
      Edits noteKeys q (l.foldl (fun parent counter => setPresent parent counter (natJson keep)) q) := by
    intro l
    induction l with
    | nil => exact fun q _ => .refl _ _
    | cons c l ih =>
      intro q hl
      exact (Edits.setPresent (hl c List.mem_cons_self) rfl).trans
        (ih _ fun c' hc' => hl c' (List.mem_cons_of_mem _ hc'))
  refine hfold _ p fun c hc => ?_
  cases hlookup : counters.lookup key with
  | none => rw [hlookup] at hc; cases hc
  | some l =>
    rw [hlookup] at hc
    obtain ⟨front, rest, hcounters, -⟩ := List.lookup_eq_some_iff.mp hlookup
    have hmem : (key, l) ∈ counters := by
      rw [hcounters]
      exact List.mem_append_right _ List.mem_cons_self
    exact List.mem_append_left _ (List.mem_flatMap.mpr ⟨_, hmem, hc⟩)

lemma advanceCursor_edits (p : Json) (key : String) (keep : ℕ) :
    Edits (cursors.map (·.2.2)) p (advanceCursor p key keep) := by
  unfold advanceCursor
  split
  · exact .refl _ _
  · rename_i offset next hlookup
    obtain ⟨front, rest, hcursors, -⟩ := List.lookup_eq_some_iff.mp hlookup
    have hmem : (key, offset, next) ∈ cursors := by
      rw [hcursors]
      exact List.mem_append_right _ List.mem_cons_self
    split_ifs
    · exact .set (List.mem_map.mpr ⟨_, hmem, rfl⟩) rfl
    · exact .refl _ _

lemma noteMore_edits (p : Json) (key : String) : Edits ["has_more"] p (noteMore p key) := by
  unfold noteMore
  split_ifs
  · exact .setPresent (by decide) rfl
  · exact .refl _ _

/-- The sibling loses its last items; the other fields stay. -/
lemma cutSibling_get (p : Json) (key : String) (keep count : ℕ) (q : String) :
    (cutSibling p key keep count).1.get q = p.get q ∨
      (q ∈ siblings.map Prod.snd ∧ ∃ items, p.get q = some (.arr items) ∧
        (cutSibling p key keep count).1.get q = some (.arr (items.take keep))) := by
  unfold cutSibling
  split
  · exact .inl rfl
  · rename_i sibling hlookup
    obtain ⟨front, rest, hsiblings, -⟩ := List.lookup_eq_some_iff.mp hlookup
    have hmem : (key, sibling) ∈ siblings := by
      rw [hsiblings]
      exact List.mem_append_right _ List.mem_cons_self
    dsimp only
    split
    · exact .inl rfl
    · rename_i items hitems
      obtain ⟨x, hx, harr⟩ := Option.bind_eq_some_iff.mp hitems
      obtain rfl := asArr_eq_some.mp harr
      split_ifs
      · by_cases hq : q = sibling
        · subst hq
          exact .inr ⟨List.mem_map.mpr ⟨_, hmem, rfl⟩, items, hx,
            get_set_self (isObject_of_get hx) _ _⟩
        · exact .inl (get_set_ne hq _ _)
      · exact .inl rfl

lemma isObject_cutSibling (p : Json) (key : String) (keep count : ℕ) :
    (cutSibling p key keep count).1.isObject = p.isObject := by
  unfold cutSibling
  split
  · rfl
  · dsimp only
    split
    · rfl
    · split_ifs
      · exact isObject_set _ _ _
      · rfl

/-- The steps of a cut of a field. -/
lemma cutField_eq {p p' : Json} {keep count : ℕ} {paired : Option (String × ℕ)}
    (h : cutField p key keep count = .ok (p', paired)) :
    Edits noteKeys (noteMore (advanceCursor (cutSibling (p.set key
      (truncateItems keep (p.getD key))) key keep count).1 key keep) key) p' := by
  unfold cutField at h
  simp only [bind, Except.bind, pure, Except.pure] at h
  split at h
  · cases h
  · rename_i q hbroken
    obtain ⟨rfl, -⟩ := Prod.mk.inj (Except.ok.inj h)
    exact ((noteMembers_edits _ key keep).trans (noteBroken_edits hbroken)).trans
      (counters_edits q key keep)

/-! ## One cut -/

/-- Keys of cursors are not those of other things. -/
lemma cursor_apart {c : String × String × String} (hc : c ∈ cursors) :
    c.1 ∉ siblings.map Prod.snd ∧ c.2.1 ∉ siblings.map Prod.snd ∧ c.2.2 ∉ siblings.map Prod.snd ∧
      c.1 ∉ noteKeys ∧ c.2.1 ∉ noteKeys ∧ c.2.2 ∉ noteKeys ∧
      c.1 ∉ cursors.map (·.2.2) ∧ c.2.1 ∉ cursors.map (·.2.2) ∧
      c.1 ≠ "has_more" ∧ c.2.1 ≠ "has_more" ∧ c.2.2 ≠ "has_more" ∧
      c.1 ≠ c.2.1 ∧ c.1 ≠ c.2.2 ∧ c.2.1 ≠ c.2.2 ∧ brokenPair c.1 = false ∧
      siblings.lookup c.1 = none ∧ cursors.lookup c.1 = some c.2 := by
  revert c
  decide

lemma hasMore_apart : "has_more" ∉ siblings.map Prod.snd ∧ "has_more" ∉ noteKeys ∧
    "has_more" ∉ cursors.map (·.2.2) := by decide

/-- The next offset belongs to one array. -/
lemma cursor_eq_of_next {c c' : String × String × String} (hc : c ∈ cursors) (hc' : c' ∈ cursors)
    (h : c.2.2 = c'.2.2) : c = c' := by
  have hall : ∀ c ∈ cursors, ∀ c' ∈ cursors, c.2.2 = c'.2.2 → c = c' := by decide
  exact hall c hc c' hc' h

section CutField

variable {fields : List (String × Json)} {items : List Json} {keep count : ℕ} {p' : Json}
  {paired : Option (String × ℕ)}

/-- The array that is cut, and what is written to the other fields. -/
lemma cutField_get (hget : (Json.obj fields).get key = some (.arr items))
    (h : cutField (.obj fields) key keep count = .ok (p', paired)) (q : String) :
    p'.get q = (Json.obj fields).get q ∨ (∃ u, p'.get q = some u ∧ Written q u) ∨
      ((q = key ∨ q ∈ siblings.map Prod.snd) ∧ ∃ items, (Json.obj fields).get q = some (.arr items) ∧
        p'.get q = some (.arr (items.take keep))) := by
  have hedits := cutField_eq h
  rw [getD_of_get hget, truncateItems] at hedits
  set p₁ := (Json.obj fields).set key (.arr (items.take keep)) with hp₁
  set p₂ := (cutSibling p₁ key keep count).1 with hp₂
  -- all that is written later is scalar
  have hcursor := advanceCursor_edits p₂ key keep
  have hmore := noteMore_edits (advanceCursor p₂ key keep) key
  have hwritten : ∀ q ∈ noteKeys ++ cursors.map (·.2.2) ++ ["has_more"], q ∈ writtenKeys := by decide
  have hall : Edits (noteKeys ++ cursors.map (·.2.2) ++ ["has_more"]) p₂ p' :=
    ((hcursor.mono (by simp +contextual)).trans (hmore.mono (by simp +contextual))).trans
      (hedits.mono (by simp +contextual))
  have hsecond : p₂.get q = (Json.obj fields).get q ∨ ((q = key ∨ q ∈ siblings.map Prod.snd) ∧
      ∃ items, (Json.obj fields).get q = some (.arr items) ∧
        p₂.get q = some (.arr (items.take keep))) := by
    by_cases hq : q = key
    · subst hq
      have hfirst : p₁.get q = some (.arr (items.take keep)) := get_set_self rfl _ _
      obtain hsame | ⟨-, items', hitems', hcut⟩ := cutSibling_get p₁ q keep count q
      · exact .inr ⟨.inl rfl, items, hget, hsame.trans hfirst⟩
      · obtain rfl := Json.arr.inj (Option.some.inj (hfirst.symm.trans hitems'))
        rw [List.take_take, min_self] at hcut
        exact .inr ⟨.inl rfl, items, hget, hcut⟩
    · have hfirst : p₁.get q = (Json.obj fields).get q := get_set_ne hq _ _
      obtain hsame | ⟨hmem, items', hitems', hcut⟩ := cutSibling_get p₁ key keep count q
      · exact .inl (hsame.trans hfirst)
      · exact .inr ⟨.inr hmem, items', hfirst ▸ hitems', hcut⟩
  obtain hsame | ⟨u, hu, hscalar⟩ := hall.wrote q
  · rw [hsame]
    exact hsecond.imp_right .inr
  · by_cases hmem : q ∈ noteKeys ++ cursors.map (·.2.2) ++ ["has_more"]
    · exact .inr (.inl ⟨u, hu, hwritten q hmem, hscalar⟩)
    · rw [hall.same q hmem]
      exact hsecond.imp_right .inr

lemma isObject_cutField (h : cutField (.obj fields) key keep count = .ok (p', paired)) :
    p'.isObject = true := by
  have hedits := cutField_eq h
  rw [hedits.object, (noteMore_edits _ _).object, (advanceCursor_edits _ _ _).object,
    isObject_cutSibling, isObject_set]
  rfl

/-- A cut of another array does not touch a cursor. -/
lemma cutField_get_other {c : String × String × String} (hc : c ∈ cursors) (hne : c.1 ≠ key)
    (h : cutField (.obj fields) key keep count = .ok (p', paired)) {q : String}
    (hq : q = c.1 ∨ q = c.2.1 ∨ q = c.2.2 ∨ (q = "has_more" ∧ c.1 = "unreachable_symbols"))
    (hqk : q ≠ key) : p'.get q = (Json.obj fields).get q := by
  obtain ⟨hs₁, hs₂, hs₃, hn₁, hn₂, hn₃, hc₁, hc₂, hm₁, hm₂, hm₃, -⟩ := cursor_apart hc
  have hsibling : q ∉ siblings.map Prod.snd := by
    rcases hq with rfl | rfl | rfl | ⟨rfl, -⟩
    exacts [hs₁, hs₂, hs₃, hasMore_apart.1]
  have hnote : q ∉ noteKeys := by
    rcases hq with rfl | rfl | rfl | ⟨rfl, -⟩
    exacts [hn₁, hn₂, hn₃, hasMore_apart.2.1]
  have hmore : ∀ p, (noteMore p key).get q = p.get q := by
    intro p
    rcases hq with rfl | rfl | rfl | ⟨rfl, hkey⟩
    · exact (noteMore_edits p key).same _ (by simpa using hm₁)
    · exact (noteMore_edits p key).same _ (by simpa using hm₂)
    · exact (noteMore_edits p key).same _ (by simpa using hm₃)
    · rw [noteMore, if_neg (hkey ▸ hne.symm)]
  have hcursor : ∀ p, (advanceCursor p key keep).get q = p.get q := by
    intro p
    rcases hq with rfl | rfl | rfl | ⟨rfl, -⟩
    · exact (advanceCursor_edits p key keep).same _ hc₁
    · exact (advanceCursor_edits p key keep).same _ hc₂
    · unfold advanceCursor
      split
      · rfl
      · rename_i offset next hlookup
        obtain ⟨front, rest, hcursors, -⟩ := List.lookup_eq_some_iff.mp hlookup
        have hmem : (key, offset, next) ∈ cursors := by
          rw [hcursors]
          exact List.mem_append_right _ List.mem_cons_self
        have hnext : c.2.2 ≠ next := fun heq =>
          hne (congrArg Prod.fst (cursor_eq_of_next hc hmem heq))
        split_ifs
        · exact get_set_ne hnext _ _
        · rfl
    · exact (advanceCursor_edits p key keep).same _ hasMore_apart.2.2
  rw [(cutField_eq h).same q hnote, hmore, hcursor]
  obtain hsame | ⟨hmem, -⟩ := cutSibling_get ((Json.obj fields).set key
    (truncateItems keep ((Json.obj fields).getD key))) key keep count q
  · rw [hsame, get_set_ne hqk]
  · exact absurd hmem hsibling

lemma asU64_natJson {n : ℕ} (h : n ≤ u64Max) : asU64 (natJson n) = some n := by
  have hle : (n : ℤ) ≤ (u64Max : ℤ) := by exact_mod_cast h
  simp [asU64, natJson, hle]

/-- A cut of an array moves its cursor. -/
lemma cutField_cursor {c : String × String × String} (hc : c ∈ cursors)
    (hget : (Json.obj fields).get key = some (.arr items)) (hkeep : c.1 = key → keep < items.length)
    (h : cutField (.obj fields) key keep count = .ok (p', paired)) :
    CursorKept c (.obj fields) p' := by
  intro items₀ items' offset hitems hitems' hoffset hmax hnext
  obtain ⟨-, -, -, hn₁, hn₂, hn₃, hc₁, hc₂, hm₁, hm₂, hm₃, hco, hcn, hon, -, hsibling, hlookup⟩ :=
    cursor_apart hc
  by_cases hkey : c.1 = key
  · -- the array of this cursor is cut
    subst hkey
    obtain rfl : items₀ = items := by
      rw [hget] at hitems
      exact (Json.arr.inj (Option.some.inj hitems)).symm
    have hlt := hkeep rfl
    have hedits := cutField_eq h
    rw [getD_of_get hget, truncateItems, cutSibling, hsibling] at hedits
    dsimp only at hedits
    set p₁ := (Json.obj fields).set c.1 (.arr (items₀.take keep)) with hp₁
    have hoffset₁ : p₁.get c.2.1 = some (natJson offset) := (get_set_ne hco.symm _ _).trans hoffset
    have hnext₁ : (p₁.get c.2.2).isSome := by
      rw [hp₁, get_set_ne hcn.symm]
      obtain hnull | ⟨n, hnum⟩ := hnext
      · rw [hnull]; rfl
      · rw [hnum]; rfl
    have hadvance : advanceCursor p₁ c.1 keep = p₁.set c.2.2 (natJson (offset + keep)) := by
      have hsum : saturatingAdd offset keep = offset + keep := by
        rw [saturatingAdd, min_eq_left]
        omega
      rw [advanceCursor, hlookup]
      dsimp only
      rw [hnext₁, hoffset₁, getD_of_get hoffset₁, asU64_natJson (by omega)]
      simp [hsum]
    rw [hadvance] at hedits
    set p₃ := p₁.set c.2.2 (natJson (offset + keep)) with hp₃
    have hobj : p₁.isObject = true := isObject_set _ _ _
    have hmore := noteMore_edits p₃ c.1
    have harr : p'.get c.1 = some (.arr (items₀.take keep)) := by
      rw [hedits.same _ hn₁, hmore.same _ (by simpa using hm₁), hp₃, get_set_ne hcn, hp₁]
      exact get_set_self rfl _ _
    obtain rfl : items' = items₀.take keep := by
      rw [harr] at hitems'
      exact (Json.arr.inj (Option.some.inj hitems')).symm
    have hlen : (items₀.take keep).length = keep := by
      rw [List.length_take, min_eq_left hlt.le]
    refine ⟨?_, .inr ⟨hlen.trans_lt hlt, ?_, fun b hunreachable hb => ?_⟩⟩
    · rw [hedits.same _ hn₂, hmore.same _ (by simpa using hm₂), hp₃, get_set_ne hon, hoffset₁]
    · rw [hedits.same _ hn₃, hmore.same _ (by simpa using hm₃), hlen, hp₃, get_set_self hobj]
    · have hpresent : (p₃.get "has_more").isSome := by
        rw [hp₃, get_set_ne hm₃.symm, hp₁, get_set_ne hm₁.symm, hb]
        rfl
      rw [hedits.same _ hasMore_apart.2.1, noteMore, if_pos hunreachable, setPresent, if_pos hpresent]
      exact get_set_self ((isObject_set _ _ _).trans hobj) _ _
  · -- another array is cut
    have hother : ∀ q, (q = c.1 ∨ q = c.2.1 ∨ q = c.2.2 ∨
        (q = "has_more" ∧ c.1 = "unreachable_symbols")) →
        (∀ items, (Json.obj fields).get q ≠ some (.arr items)) ∨ q ≠ key →
        p'.get q = (Json.obj fields).get q := by
      intro q hq hplain
      refine cutField_get_other hc hkey h hq ?_
      rintro rfl
      obtain hplain | hne := hplain
      · exact hplain _ hget
      · exact hne rfl
    have harr := hother c.1 (.inl rfl) (.inr hkey)
    obtain rfl : items' = items₀ := by
      rw [harr, hitems] at hitems'
      exact (Json.arr.inj (Option.some.inj hitems')).symm
    refine ⟨?_, .inl ⟨rfl, ?_, fun b hunreachable hb => ?_⟩⟩
    · exact (hother c.2.1 (by simp) (.inl (by simp [hoffset, natJson]))).trans hoffset
    · refine hother c.2.2 (by simp) (.inl ?_)
      obtain hnull | ⟨n, hnum⟩ := hnext
      · simp [hnull]
      · simp [hnum]
    · exact (hother "has_more" (by simp [hunreachable]) (.inl (by simp [hb]))).trans hb

/-- A cut reduces the object around the array. -/
lemma cutField_reduced (parentKey : String)
    (hget : (Json.obj fields).get key = some (.arr items))
    (hpos : 0 < keep) (hkeep : ∀ c ∈ cursors, c.1 = key → keep < items.length)
    (h : cutField (.obj fields) key keep count = .ok (p', paired)) :
    Reduced parentKey (.obj fields) p' ∧ Alike (.obj fields) p' := by
  obtain ⟨fields', rfl⟩ := isObject_iff.mp (isObject_cutField h)
  refine ⟨.object (fun q hq => ?_) (fun q u u' _ hu hu' hopen => ?_)
    fun c hc => cutField_cursor hc hget (hkeep c hc) h, trivial⟩
  · obtain hsame | ⟨u, hu, -⟩ | ⟨-, items', -, hu⟩ := cutField_get hget h q
    · rwa [hsame]
    · rw [hu]; rfl
    · rw [hu]; rfl
  · obtain hsame | ⟨x, hx, hwritten⟩ | ⟨-, items', hold, hnew⟩ := cutField_get hget h q
    · obtain rfl := Option.some.inj (hu'.symm.trans (hsame.trans hu))
      exact .refl _ _
    · obtain rfl := Option.some.inj (hx.symm.trans hu')
      exact absurd hwritten hopen
    · obtain rfl := Option.some.inj (hold.symm.trans hu)
      obtain rfl := Option.some.inj (hnew.symm.trans hu')
      exact .take _ _ hpos

end CutField

/-- Clipping a text reduces the object around it. -/
lemma clipField_reduced (parentKey : String) {fields : List (String × Json)} {text : String}
    (hget : (Json.obj fields).get key = some (.str text)) (hlong : 128 < strLen text)
    (hplain : identity key = false) (clipped : String) :
    Reduced parentKey (.obj fields) (clipField (.obj fields) key clipped) ∧
      Alike (.obj fields) (clipField (.obj fields) key clipped) := by
  have hedits : Edits ["next_body_offset", "body_truncated"] ((Json.obj fields).set key (.str clipped))
      (clipField (.obj fields) key clipped) := by
    have hflag : ∀ p, Edits ["next_body_offset", "body_truncated"] p
        (p.set "body_truncated" (.bool true)) := fun p => .set (by decide) rfl
    unfold clipField
    dsimp only
    by_cases hbody : key = "body"
    · rw [if_pos hbody]
      split
      · split_ifs
        · refine Edits.trans ?_ (hflag _)
          exact .set (by decide) rfl
        · exact hflag _
      · exact hflag _
    · rw [if_neg hbody]
      exact .refl _ _
  have hwritten : ∀ q ∈ ["next_body_offset", "body_truncated"], q ∈ writtenKeys := by decide
  obtain ⟨fields', hfields'⟩ : ∃ fields', clipField (.obj fields) key clipped = .obj fields' :=
    isObject_iff.mp (hedits.object.trans (isObject_set _ _ _))
  rw [hfields'] at hedits ⊢
  have hcases : ∀ q, (Json.obj fields').get q = (Json.obj fields).get q ∨
      (∃ u, (Json.obj fields').get q = some u ∧ Written q u) ∨
      (q = key ∧ (Json.obj fields').get q = some (.str clipped)) := by
    intro q
    by_cases hmem : q ∈ ["next_body_offset", "body_truncated"]
    · obtain hsame | ⟨u, hu, hscalar⟩ := hedits.wrote q
      · by_cases hq : q = key
        · exact .inr (.inr ⟨hq, hsame.trans (hq ▸ get_set_self rfl _ _)⟩)
        · exact .inl (hsame.trans (get_set_ne hq _ _))
      · exact .inr (.inl ⟨u, hu, hwritten q hmem, hscalar⟩)
    · by_cases hq : q = key
      · exact .inr (.inr ⟨hq, (hedits.same q hmem).trans (hq ▸ get_set_self rfl _ _)⟩)
      · exact .inl ((hedits.same q hmem).trans (get_set_ne hq _ _))
  refine ⟨.object (fun q hq => ?_) (fun q u u' _ hu hu' hopen => ?_) fun c hc => .of_alike ?_, trivial⟩
  · obtain hsame | ⟨u, hu, -⟩ | ⟨-, hu⟩ := hcases q
    · rwa [hsame]
    · rw [hu]; rfl
    · rw [hu]; rfl
  · obtain hsame | ⟨x, hx, hwritten'⟩ | ⟨rfl, hnew⟩ := hcases q
    · obtain rfl := Option.some.inj (hu'.symm.trans (hsame.trans hu))
      exact .refl _ _
    · obtain rfl := Option.some.inj (hx.symm.trans hu')
      exact absurd hwritten' hopen
    · obtain rfl := Option.some.inj (hget.symm.trans hu)
      obtain rfl := Option.some.inj (hnew.symm.trans hu')
      exact .text hlong hplain
  · intro q hq
    have hmem : q ∉ ["next_body_offset", "body_truncated"] := by
      have hall : ∀ c ∈ cursors, ∀ q ∈ [c.1, c.2.1, c.2.2, "has_more"],
          q ∉ ["next_body_offset", "body_truncated"] := by decide
      exact hall c hc q (by simpa using hq)
    by_cases hqk : q = key
    · subst hqk
      exact .inr ⟨_, _, hget, (hedits.same q hmem).trans (get_set_self rfl _ _), trivial⟩
    · exact .inl ((hedits.same q hmem).trans (get_set_ne hqk _ _))

/-! ### Mirrored texts -/

/-- The mirror of a path parts from it at one of the two node lists. -/
lemma mirrorPath_spec {mirror : List Step} {text : String} (h : mirrorPath path v = some mirror)
    (hleads : Leads v path (.str text)) : ∃ front k k' rest, path = front ++ Step.key k :: rest ∧
      mirror = front ++ Step.key k' :: rest ∧ k' ≠ k ∧ (k' = "nodes" ∨ k' = "impact_nodes") ∧
      rest ≠ [] ∧ Leads v mirror (.str text) := by
  induction path generalizing v mirror with
  | nil => cases h
  | cons step path ih =>
    cases step with
    | index i =>
      cases hleads with
      | item hget hleads =>
        rw [mirrorPath, item_of_getElem? hget] at h
        obtain ⟨m, hm, rfl⟩ := Option.map_eq_some_iff.mp h
        obtain ⟨front, k, k', rest, rfl, rfl, hne, hkey, hrest, hmirror⟩ := ih hm hleads
        exact ⟨.index i :: front, k, k', rest, rfl, rfl, hne, hkey, hrest, .item hget hmirror⟩
    | key k =>
      cases hleads with
      | @field _ w₁ _ _ _ hget hleads =>
        rw [mirrorPath, getD_of_get hget] at h
        split at h
        · rename_i sibling hsibling
          obtain rfl := Option.some.inj h
          obtain ⟨hkey, hequal⟩ := Option.filter_eq_some_iff.mp hsibling
          rw [Bool.and_eq_true] at hequal
          have hnames : sibling ≠ k ∧ (sibling = "nodes" ∨ sibling = "impact_nodes") := by
            split_ifs at hkey with hnodes himpact
            · obtain rfl := Option.some.inj hkey
              exact ⟨by rw [hnodes]; decide, .inr rfl⟩
            · obtain rfl := Option.some.inj hkey
              exact ⟨by rw [himpact]; decide, .inl rfl⟩
          have hother : ∃ u', v.get sibling = some u' ∧ w₁.equal u' = true := by
            cases hs : v.get sibling with
            | some u' => exact ⟨u', rfl, (getD_of_get hs) ▸ hequal.2⟩
            | none =>
              -- an array is not equal to null
              obtain ⟨items, hitems⟩ := Option.isSome_iff_exists.mp hequal.1
              have hnull : v.getD sibling = .null := by rw [getD, hs]; rfl
              rw [asArr_eq_some.mp hitems, hnull] at hequal
              cases hequal.2
          obtain ⟨u', hu', heq⟩ := hother
          refine ⟨[], k, sibling, path, rfl, rfl, hnames.1, hnames.2, ?_,
            .field hu' (hleads.of_equal heq)⟩
          -- the list is not the text itself
          rintro rfl
          cases hleads
          cases hequal.1
        · obtain ⟨m, hm, rfl⟩ := Option.map_eq_some_iff.mp h
          obtain ⟨front, k₁, k₂, rest', rfl, rfl, hne, hkey, hrest, hmirror⟩ := ih hm hleads
          exact ⟨.key k :: front, k₁, k₂, rest', rfl, rfl, hne, hkey, hrest, .field hget hmirror⟩

/-! ### The two kinds of cut -/

lemma halfUp_pos {n : ℕ} (h : 1 < n) : 0 < halfUp n := by
  unfold halfUp
  omega

lemma halfUp_lt {n : ℕ} (h : 1 < n) : halfUp n < n := by
  unfold halfUp
  omega

lemma pos_of_kept {keep n : ℕ}
    (h : (if keep = 0 then .error .refuse else .ok (some keep)) = (.ok (some n) : Except Stop _)) :
    0 < n := by
  by_cases hzero : keep = 0
  · rw [if_pos hzero] at h
    cases h
  · rw [if_neg hzero] at h
    obtain rfl := Option.some.inj (Except.ok.inj h)
    exact Nat.pos_of_ne_zero hzero

lemma sharedKeep_pos {p : Json} {shared : Option ℕ} (h : sharedKeep p key = .ok shared) :
    ∀ n, shared = some n → 0 < n := by
  rintro n rfl
  unfold sharedKeep at h
  by_cases hbroken : brokenPair key
  · rw [if_pos hbroken] at h
    dsimp only at h
    split at h
    · cases h
    · rename_i other hother
      by_cases hrefused : key = "low_confidence" ∧ other = []
      · rw [if_pos hrefused] at h
        cases h
      · rw [if_neg hrefused] at h
        exact pos_of_kept h
  · rw [if_neg hbroken] at h
    cases h

lemma sharedKeep_of_cursor {c : String × String × String} (hc : c ∈ cursors) (p : Json) :
    sharedKeep p c.1 = .ok none := by
  obtain ⟨-, -, -, -, -, -, -, -, -, -, -, -, -, -, hbroken, -⟩ := cursor_apart hc
  rw [sharedKeep, hbroken]
  rfl

/-- Cutting an array reduces the value. -/
lemma shrinkArray_reduced {items : List Json} {omitted omitted' : Omitted}
    (hleads : Leads v path (.arr items)) (hlen : 1 < items.length)
    (h : shrinkArray hash v path omitted = .ok (v', omitted')) : Reduced key v v' := by
  unfold shrinkArray at h
  rw [hleads.follow_eq] at h
  dsimp only at h
  split at h
  · -- a field of an object
    rename_i field hlast
    obtain ⟨u, hfront, hrest, hpath⟩ := hleads.dropLast hlast
    cases hrest with
    | @field _ w _ _ _ hget hnil =>
      cases hnil
      obtain ⟨fields, rfl⟩ := isObject_iff.mp (isObject_of_get hget)
      simp only [bind, Except.bind, pure, Except.pure, hfront.follow_eq] at h
      split at h
      · cases h
      · rename_i shared hshared
        split at h
        · cases h
        · rename_i cut hcut
          obtain ⟨p', paired⟩ := cut
          obtain ⟨rfl, -⟩ := Prod.mk.inj (Except.ok.inj h)
          have hpos : 0 < shared.getD (halfUp (arrLen (.arr items))) := by
            cases shared with
            | some n => exact sharedKeep_pos hshared n rfl
            | none => exact halfUp_pos hlen
          have hkeep : ∀ c ∈ cursors, c.1 = field →
              shared.getD (halfUp (arrLen (.arr items))) < items.length := by
            rintro c hc rfl
            rw [sharedKeep_of_cursor hc] at hshared
            obtain rfl := Except.ok.inj hshared
            exact halfUp_lt hlen
          obtain ⟨hred, halike⟩ := cutField_reduced
            (lastKey key path.dropLast) hget hpos hkeep hcut
          exact (Reduced.modifyAt hfront hred halike).1
  · rename_i hlast
    obtain ⟨rfl, -⟩ := Prod.mk.inj (Except.ok.inj h)
    cases hstep : path.getLast? with
    | none =>
      -- the value itself
      obtain rfl := List.getLast?_eq_none_iff.mp hstep
      cases hleads
      exact .take _ _ (halfUp_pos hlen)
    | some step =>
      obtain ⟨u, hfront, hrest, hpath⟩ := hleads.dropLast hstep
      cases hrest with
      | field hget hnil => exact absurd hstep (hlast _)
      | @item row u w i _ hget hnil =>
        cases hnil
        rw [hpath, modifyAt_append]
        refine (Reduced.modifyAt hfront ?_ ?_).1
        · rw [Json.modifyAt, item_of_getElem? hget]
          exact .setItem hget (.take _ _ (halfUp_pos hlen))
        · rw [Json.modifyAt, item_of_getElem? hget]
          exact List.length_set

lemma lastKey_cases (k k' : String) (rest : List Step) :
    lastKey k rest = lastKey k' rest ∨ (lastKey k rest = k ∧ lastKey k' rest = k') := by
  induction rest with
  | nil => exact .inr ⟨rfl, rfl⟩
  | cons step rest ih =>
    cases step with
    | key q => exact .inl rfl
    | index i => exact ih

/-- The mirrored text names nothing either. -/
lemma mirror_plain {front rest : List Step} {k k' : String}
    (hplain : identity (lastKey key (front ++ Step.key k :: rest)) = false)
    (hkey : k' = "nodes" ∨ k' = "impact_nodes") :
    identity (lastKey key (front ++ Step.key k' :: rest)) = false := by
  rw [lastKey_append, lastKey] at hplain ⊢
  obtain hsame | ⟨-, hlast⟩ := lastKey_cases k k' rest
  · rwa [← hsame]
  · rw [hlast]
    obtain rfl | rfl := hkey <;> decide +kernel

/-- A text that is clipped with its parent: what is left, and the mirrored text stays. -/
lemma clipAt_reduced {text : String} (hleads : Leads v path (.str text)) (hlong : 128 < strLen text)
    (hplain : identity (lastKey key path) = false) (clipped : String) :
    Reduced key v (clipAt path clipped v) ∧ ∀ mirror, mirrorPath path v = some mirror →
      Leads (clipAt path clipped v) mirror (.str text) := by
  unfold clipAt
  split
  · rename_i field hlast
    obtain ⟨u, hfront, hrest, hpath⟩ := hleads.dropLast hlast
    cases hrest with
    | field hget hnil =>
      cases hnil
      obtain ⟨fields, rfl⟩ := isObject_iff.mp (isObject_of_get hget)
      have hfield : identity field = false := by
        rw [hpath, lastKey_append] at hplain
        exact hplain
      obtain ⟨hred, halike⟩ := clipField_reduced (lastKey key path.dropLast) hget hlong
        hfield clipped
      refine ⟨(Reduced.modifyAt hfront hred halike).1, fun mirror hm => ?_⟩
      obtain ⟨front, k, k', rest, rfl, rfl, hne, -, hnil, hmirror⟩ := mirrorPath_spec hm hleads
      rw [List.dropLast_append_cons, List.dropLast_cons_of_ne_nil hnil] at hfront ⊢
      exact hmirror.modifyAt_of_ne hne hfront
  · refine ⟨(Reduced.modifyAt (f := fun _ => .str clipped) hleads (.text hlong hplain) trivial).1,
      fun mirror hm => ?_⟩
    obtain ⟨front, k, k', rest, rfl, rfl, hne, -, -, hmirror⟩ := mirrorPath_spec hm hleads
    exact hmirror.modifyAt_of_ne hne hleads

/-- Clipping a text reduces the value. -/
lemma shrinkText_reduced {text : String} (hleads : Leads v path (.str text))
    (hlong : 128 < strLen text) (hplain : identity (lastKey key path) = false)
    (omitted : Omitted) : Reduced key v (shrinkText hash v path omitted).1 := by
  unfold shrinkText
  dsimp only
  generalize clip _ _ = clipped
  obtain ⟨hred, hmirror⟩ := clipAt_reduced hleads hlong hplain clipped
  split
  · rename_i mirror hm
    obtain ⟨front, k, k', rest, hpath, rfl, -, hkey, -, -⟩ := mirrorPath_spec hm hleads
    have hplain' := mirror_plain (hpath ▸ hplain) hkey
    have hred' := Reduced.modifyAt (f := fun _ => .str clipped) (hmirror _ hm)
      (.text hlong hplain') trivial
    exact hred.trans hred'.1
  · exact hred

/-- One reduction. -/
lemma shrink_reduced {omitted omitted' : Omitted}
    (h : shrink hash v omitted = .ok (some (v', omitted'))) : Reduced "" v v' := by
  unfold shrink at h
  split at h
  · cases h
  · rename_i cut hcut
    obtain hnone | ⟨rest, w, hpath, hleads, hcuttable⟩ := largest_spec v [] "" none hcut
    · cases hnone
    · rw [List.nil_append] at hpath
      subst hpath
      obtain ⟨harray, items, rfl, hlen⟩ | ⟨harray, s, rfl, hlong, hplain⟩ := hcuttable
      · rw [if_pos harray] at h
        obtain ⟨e, he, heq⟩ : ∃ e, shrinkArray hash v cut.path omitted = .ok e ∧
            some e = some (v', omitted') := by
          cases hs : shrinkArray hash v cut.path omitted with
          | error stop => rw [hs] at h; cases h
          | ok e => rw [hs] at h; exact ⟨e, rfl, Except.ok.inj h⟩
        obtain rfl := Option.some.inj heq
        exact shrinkArray_reduced hleads hlen he
      · rw [if_neg (by simp [harray])] at h
        have heq := Option.some.inj (Except.ok.inj h)
        have hfst : (shrinkText hash v cut.path omitted).1 = v' := by rw [heq]
        exact hfst ▸ shrinkText_reduced hleads hlong hplain omitted

/-! ## The finalizer -/

/-- The disclosure writes a flag, and the note that is no part of the value. -/
lemma disclose_reduced (v : Json) (omitted : Omitted) (priorComplete : Bool) :
    Reduced key v (disclose v omitted priorComplete) := by
  cases v with
  | obj fields =>
    have hother : ∀ q, q ≠ "output_budget" → q ≠ "truncated" →
        (disclose (.obj fields) omitted priorComplete).get q = (Json.obj fields).get q := by
      intro q hbudget htruncated
      rw [disclose, get_set_ne hbudget, get_set_ne htruncated]
    have htruncated : (disclose (.obj fields) omitted priorComplete).get "truncated" =
        some (.bool true) := by
      rw [disclose, get_set_ne (by decide), get_set_self rfl]
    have hbudget : ((disclose (.obj fields) omitted priorComplete).get "output_budget").isSome := by
      rw [disclose, get_set_self (isObject_set _ _ _)]
      rfl
    refine .object (fun q hq => ?_) (fun q u u' hne hu hu' hopen => ?_)
      fun c hc => .of_alike fun q hq => .inl (hother q ?_ ?_)
    · change ((disclose (.obj fields) omitted priorComplete).get q).isSome
      by_cases hq₁ : q = "output_budget"
      · rwa [hq₁]
      · by_cases hq₂ : q = "truncated"
        · rw [hq₂, htruncated]
          rfl
        · rwa [hother q hq₁ hq₂]
    · change (disclose (.obj fields) omitted priorComplete).get q = some u' at hu'
      by_cases hq : q = "truncated"
      · subst hq
        obtain rfl := Option.some.inj (htruncated.symm.trans hu')
        exact absurd ⟨by decide, rfl⟩ hopen
      · rw [hother q hne hq] at hu'
        obtain rfl := Option.some.inj (hu.symm.trans hu')
        exact .refl _ _
    · have hall : ∀ c ∈ cursors, ∀ q ∈ [c.1, c.2.1, c.2.2, "has_more"], q ≠ "output_budget" := by
        decide
      exact hall c hc q (by simpa using hq)
    · have hall : ∀ c ∈ cursors, ∀ q ∈ [c.1, c.2.1, c.2.2, "has_more"], q ≠ "truncated" := by decide
      exact hall c hc q (by simpa using hq)
  | _ => exact .refl _ _

variable {result result' : Json} {omitted omitted' : Omitted}

/-- A reduction of a result reduces its structured content, if it touches it at all. -/
lemma shrinkResult_reduced (hget : result.get "structuredContent" = some v)
    (h : shrinkResult hash result omitted = .ok (some (result', omitted'))) :
    ∃ v', result'.get "structuredContent" = some v' ∧ Reduced "" v v' := by
  unfold shrinkResult at h
  simp only [bind, Except.bind, pure, Except.pure, getD_of_get hget] at h
  split at h
  · cases h
  · rename_i outcome houtcome
    split at h
    · rename_i content cuts
      obtain ⟨rfl, -⟩ := Prod.mk.inj (Option.some.inj (Except.ok.inj h))
      exact ⟨content, get_set_self (isObject_of_get hget) _ _, shrink_reduced houtcome⟩
    · -- only the metadata is left to cut
      split at h
      · cases h
      · split at h
        · cases h
        · split at h
          · obtain ⟨rfl, -⟩ := Prod.mk.inj (Option.some.inj (Except.ok.inj h))
            exact ⟨v, (get_set_ne (by decide) _ _).trans hget, .refl _ _⟩
          · cases h

lemma synchronize_get (result : Json) :
    (synchronize result).get "structuredContent" = result.get "structuredContent" := by
  unfold synchronize
  split
  · exact get_set_ne (by decide) _ _
  · rfl

/-- What the loop delivers is a reduction of what it began with. -/
lemma finalizeLoop_reduced {priorComplete : Bool} {n : ℕ}
    (hget : result.get "structuredContent" = some v)
    (h : finalizeLoop hash priorComplete n result omitted = .delivered result') :
    ∃ v', result'.get "structuredContent" = some v' ∧ Reduced "" v v' := by
  induction n generalizing result omitted v with
  | zero => cases h
  | succ n ih =>
    unfold finalizeLoop at h
    dsimp only at h
    set synced := if escapedSize (result.getD "structuredContent") ≤ logicalBytes then
      synchronize result else result with hsynced
    have hget' : synced.get "structuredContent" = some v := by
      rw [hsynced]
      split_ifs
      · rw [synchronize_get, hget]
      · exact hget
    split at h
    · obtain rfl := Outcome.delivered.inj h
      exact ⟨v, hget', .refl _ _⟩
    · split at h
      · cases h
      · cases h
      · cases h
      · rename_i cut cuts hcut
        obtain ⟨v₁, hv₁, hred₁⟩ := shrinkResult_reduced hget' hcut
        rw [getD_of_get hv₁] at h
        obtain ⟨v', hv', hred'⟩ := ih (get_set_self (isObject_of_get hv₁) _ _) h
        exact ⟨v', hv', (hred₁.trans (disclose_reduced v₁ cuts priorComplete)).trans hred'⟩

/-- **What is delivered is a reduction.** -/
lemma finalizeStructured_reduced (hget : result.get "structuredContent" = some v)
    (h : finalizeStructured hash result = .delivered result') :
    ∃ v', result'.get "structuredContent" = some v' ∧ Reduced "" v v' := by
  unfold finalizeStructured at h
  dsimp only at h
  split at h
  · cases h
  · exact finalizeLoop_reduced hget h

/-! ## Inside a reduced value -/

lemma isContainer_of_leads (h : Leads v path u) (hu : u.isObject = true) : isContainer v = true := by
  cases h with
  | nil =>
    obtain ⟨fields, rfl⟩ := isObject_iff.mp hu
    rfl
  | field hget =>
    obtain ⟨fields, rfl⟩ := isObject_iff.mp (isObject_of_get hget)
    rfl
  | item => rfl

/-- An object that is left inside a reduced value reduces the object that was there. -/
lemma Reduced.leads (h : Reduced key v v') (hleads : Leads v path w) (hleads' : Leads v' path u)
    (hbudget : .key "output_budget" ∉ path) (hu : u.isObject = true) :
    Reduced (lastKey key path) w u := by
  induction hleads generalizing key v' with
  | nil => cases hleads'; exact h
  | @field v x w k rest hget hrest ih =>
    cases hleads' with
    | @field _ x' _ _ _ hget' hrest' =>
      obtain ⟨y, hy, hwritten | hred⟩ := h.field hget fun hk => hbudget (hk ▸ List.mem_cons_self)
      · -- what is written holds no object
        obtain rfl := Option.some.inj (hget'.symm.trans hy)
        exact absurd ((isContainer_of_leads hrest' hu).symm.trans hwritten.2) (by decide)
      · obtain rfl := Option.some.inj (hget'.symm.trans hy)
        exact ih hred hrest' fun hmem => hbudget (List.mem_cons_of_mem _ hmem)
  | @item items x w i rest hget hrest ih =>
    obtain ⟨items', rfl, -, -, hrows⟩ := h.arr_of_arr
    cases hleads' with
    | @item _ x' _ _ _ hget' hrest' =>
      exact ih (hrows i x x' hget hget') hrest' fun hmem => hbudget (List.mem_cons_of_mem _ hmem)

lemma Reduced.cursorKept (h : Reduced key v v') {c : String × String × String} (hc : c ∈ cursors) :
    CursorKept c v v' := by
  cases h with
  | refl => exact .refl _ _
  | object keys values cursor => exact cursor c hc
  | text =>
    intro items items' offset hitems
    cases hitems
  | array =>
    intro items items' offset hitems
    cases hitems

end OutputBudget
end Mcp
end NestWeaver
