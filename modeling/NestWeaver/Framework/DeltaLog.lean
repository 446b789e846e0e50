import Mathlib.Data.List.Forall2
import Mathlib.Data.Option.Basic
import Mathlib.Logic.Function.Basic

/-!
# Logs of changes to a map

A log of changes is replayed over a map.  What a key is mapped to afterwards depends on the last
change that concerns it (`replay_apply`).

A log that is written late names keys only, and takes the values from the map as it is when the log
is written.  If the map is what the changes made of an earlier one (`Tracks`), this succeeds and
replaying the written log over the earlier map gives the present one (`Tracks.replay_bind`).
-/

set_option linter.all false

namespace NestWeaver

/-- A change to a map. -/
inductive Delta (K V : Type*)
  | clear
  | upsert (key : K) (value : V)
  | delete (key : K)
  deriving DecidableEq, Repr

namespace Delta

variable {K V W : Type*} [DecidableEq K]

/-- What a change makes of a key, if it concerns it. -/
def effect (k : K) : Delta K V → Option (Option V)
  | .clear => some none
  | .upsert key value => if key = k then some (some value) else none
  | .delete key => if key = k then some none else none

def apply (m : K → Option V) : Delta K V → K → Option V
  | .clear => fun _ => none
  | .upsert key value => Function.update m key (some value)
  | .delete key => Function.update m key none

def replay (m : K → Option V) (log : List (Delta K V)) : K → Option V := log.foldl apply m

/-- What a log makes of a key, if a change of it concerns the key: the last one counts. -/
def outcome (k : K) : List (Delta K V) → Option (Option V)
  | [] => none
  | delta :: log => (outcome k log).or (delta.effect k)

lemma apply_apply (m : K → Option V) (delta : Delta K V) (k : K) :
    delta.apply m k = (delta.effect k).getD (m k) := by
  cases delta with
  | clear => rfl
  | upsert key value =>
    by_cases hk : key = k
    · subst hk
      simp [apply, effect]
    · simp [apply, effect, hk, Function.update_of_ne (Ne.symm hk)]
  | delete key =>
    by_cases hk : key = k
    · subst hk
      simp [apply, effect]
    · simp [apply, effect, hk, Function.update_of_ne (Ne.symm hk)]

/-- **The last change counts.** -/
theorem replay_apply (m : K → Option V) (log : List (Delta K V)) (k : K) :
    replay m log k = (outcome k log).getD (m k) := by
  induction log generalizing m with
  | nil => rfl
  | cons delta log ih =>
    have hrest : replay m (delta :: log) k = replay (delta.apply m) log k := rfl
    rw [hrest, ih, apply_apply]
    cases h : outcome k log with
    | none => simp [outcome, h]
    | some o => simp [outcome, h]

lemma outcome_append (k : K) (front back : List (Delta K V)) :
    outcome k (front ++ back) = (outcome k back).or (outcome k front) := by
  induction front with
  | nil => simp [outcome]
  | cons delta front ih => simp only [List.cons_append, outcome, ih, Option.or_assoc]

lemma outcome_concat (k : K) (log : List (Delta K V)) (delta : Delta K V) :
    outcome k (log ++ [delta]) = (delta.effect k).or (outcome k log) := by
  rw [outcome_append]
  simp [outcome]

/-! ## Superseded changes -/

/-- The keys that a log deletes, and the log without the upserts before those deletions. -/
def unsuperseded (log : List (Delta K V)) : List K × List (Delta K V) :=
  log.foldr (fun delta (deleted, kept) =>
    match delta with
    | .delete key => (key :: deleted, delta :: kept)
    | .upsert key _ => (deleted, if key ∈ deleted then kept else delta :: kept)
    | .clear => (deleted, delta :: kept)) ([], [])

lemma mem_unsuperseded_fst {log : List (Delta K V)} {k : K} :
    k ∈ (unsuperseded log).1 ↔ .delete k ∈ log := by
  induction log with
  | nil => simp [unsuperseded]
  | cons delta log ih =>
    cases delta with
    | clear => simpa [unsuperseded] using ih
    | upsert key value => simpa [unsuperseded] using ih
    | delete key => simpa [unsuperseded] using or_congr Iff.rfl ih

lemma outcome_isSome_of_delete {log : List (Delta K V)} {k : K} (h : .delete k ∈ log) :
    (outcome k log).isSome := by
  induction log with
  | nil => simp at h
  | cons delta log ih =>
    obtain rfl | h := List.mem_cons.mp h
    · simp [outcome, effect]
    · simp [outcome, ih h]

/-- A superseded upsert has no effect. -/
lemma outcome_unsuperseded (k : K) (log : List (Delta K V)) :
    outcome k (unsuperseded log).2 = outcome k log := by
  induction log with
  | nil => rfl
  | cons delta log ih =>
    cases delta with
    | clear => exact congrArg (Option.or · _) ih
    | delete key => exact congrArg (Option.or · _) ih
    | upsert key value =>
      by_cases hkey : key ∈ (unsuperseded log).1
      · have hkept : (unsuperseded (.upsert key value :: log)).2 = (unsuperseded log).2 := if_pos hkey
        rw [hkept, ih, outcome]
        by_cases hk : key = k
        · subst hk
          obtain ⟨o, ho⟩ := Option.isSome_iff_exists.mp
            (outcome_isSome_of_delete (mem_unsuperseded_fst.mp hkey))
          simp [ho]
        · simp [effect, hk]
      · have hkept : (unsuperseded (.upsert key value :: log)).2 =
            .upsert key value :: (unsuperseded log).2 := if_neg hkey
        rw [hkept, outcome, outcome, ih]

lemma unsuperseded_sublist (log : List (Delta K V)) : (unsuperseded log).2.Sublist log := by
  induction log with
  | nil => exact .slnil
  | cons delta log ih =>
    cases delta with
    | clear => exact ih.cons_cons _
    | delete key => exact ih.cons_cons _
    | upsert key value =>
      by_cases hkey : key ∈ (unsuperseded log).1
      · have hkept : (unsuperseded (.upsert key value :: log)).2 = (unsuperseded log).2 := if_pos hkey
        rw [hkept]
        exact ih.cons _
      · have hkept : (unsuperseded (.upsert key value :: log)).2 =
            .upsert key value :: (unsuperseded log).2 := if_neg hkey
        rw [hkept]
        exact ih.cons_cons _

lemma unsuperseded_eq_nil {log : List (Delta K V)} (h : (unsuperseded log).2 = []) : log = [] := by
  cases log with
  | nil => rfl
  | cons delta log =>
    cases delta with
    | clear => cases h
    | delete key => cases h
    | upsert key value =>
      have hsame := outcome_unsuperseded key (.upsert key value :: log)
      rw [h, outcome, outcome, effect, if_pos rfl] at hsame
      cases hrest : outcome key log <;> simp [hrest] at hsame

/-- A key that is neither deleted nor cleared keeps what it was given. -/
lemma outcome_ne_none {log : List (Delta K V)} {k : K} (hclear : .clear ∉ log)
    (hdelete : .delete k ∉ log) : outcome k log ≠ some none := by
  induction log with
  | nil => simp [outcome]
  | cons delta log ih =>
    rw [List.mem_cons, not_or] at hclear hdelete
    have hrest := ih hclear.2 hdelete.2
    cases hlog : outcome k log with
    | some o => simpa [outcome, hlog] using hrest
    | none =>
      cases delta with
      | clear => exact absurd rfl hclear.1
      | upsert key value =>
        by_cases hk : key = k
        · simp [outcome, hlog, effect, hk]
        · simp [outcome, hlog, effect, hk]
      | delete key =>
        have hk : key ≠ k := fun hk => hdelete.1 (congrArg _ hk.symm)
        simp [outcome, hlog, effect, hk]

/-- An upsert that nothing supersedes gives its key a value. -/
lemma outcome_of_kept {log : List (Delta K V)} {k : K} {value : V} (hclear : .clear ∉ log)
    (h : .upsert k value ∈ (unsuperseded log).2) : ∃ value', outcome k log = some (some value') := by
  induction log with
  | nil => simp [unsuperseded] at h
  | cons delta log ih =>
    rw [List.mem_cons, not_or] at hclear
    have hrest : .upsert k value ∈ (unsuperseded log).2 →
        ∃ value', outcome k (delta :: log) = some (some value') := by
      intro hmem
      obtain ⟨value', hvalue⟩ := ih hclear.2 hmem
      exact ⟨value', by simp [outcome, hvalue]⟩
    cases delta with
    | clear => exact absurd rfl hclear.1
    | delete key =>
      obtain heq | hmem := List.mem_cons.mp h
      · cases heq
      · exact hrest hmem
    | upsert key value' =>
      by_cases hkey : key ∈ (unsuperseded log).1
      · have hkept : (unsuperseded (.upsert key value' :: log)).2 = (unsuperseded log).2 :=
          if_pos hkey
        rw [hkept] at h
        exact hrest h
      · have hkept : (unsuperseded (.upsert key value' :: log)).2 =
            .upsert key value' :: (unsuperseded log).2 := if_neg hkey
        rw [hkept] at h
        obtain heq | hmem := List.mem_cons.mp h
        · obtain ⟨rfl, rfl⟩ := Delta.upsert.inj heq
          have hnone := outcome_ne_none hclear.2 (mt mem_unsuperseded_fst.mpr hkey)
          match hlog : outcome k log with
          | none => exact ⟨value, by simp [outcome, hlog, effect]⟩
          | some none => exact absurd hlog hnone
          | some (some value') => exact ⟨value', by simp [outcome, hlog]⟩
        · exact hrest hmem

/-! ## Values that are taken late -/

/-- The change with the value that the map has for its key. -/
def bind (m : K → Option V) : Delta K Unit → Option (Delta K V)
  | .clear => some .clear
  | .upsert key _ => (m key).map (.upsert key)
  | .delete key => some (.delete key)

/-- The present map is what a log made of an earlier one, up to values. -/
structure Tracks (old : K → Option V) (log : List (Delta K Unit)) (m : K → Option V) : Prop where
  clear : .clear ∉ log
  same : ∀ k, outcome k log = none → m k = old k
  gone : ∀ k, outcome k log = some none → m k = none
  present : ∀ k, outcome k log = some (some ()) → (m k).isSome

lemma Tracks.nil (m : K → Option V) : Tracks m [] m where
  clear := List.not_mem_nil
  same _ _ := rfl
  gone _ h := by cases h
  present _ h := by cases h

variable {old m m' : K → Option V} {log : List (Delta K Unit)}

lemma Tracks.concat (h : Tracks old log m) {delta : Delta K Unit} {k : K} {o : Option Unit}
    (hclear : delta ≠ .clear) (hkey : delta.effect k = some o)
    (hother : ∀ k', k' ≠ k → delta.effect k' = none ∧ m' k' = m k')
    (hvalue : (m' k).isSome = o.isSome) : Tracks old (log ++ [delta]) m' := by
  have hcases : ∀ {k' : K} {o' : Option (Option Unit)}, outcome k' (log ++ [delta]) = o' →
      (k' = k ∧ o' = some o) ∨ (outcome k' log = o' ∧ m' k' = m k') := by
    intro k' o' ho'
    rw [outcome_concat] at ho'
    by_cases hk : k' = k
    · subst hk
      rw [hkey] at ho'
      exact .inl ⟨rfl, ho'.symm⟩
    · rw [(hother k' hk).1] at ho'
      exact .inr ⟨ho', (hother k' hk).2⟩
  refine ⟨?_, fun k' ho' => ?_, fun k' ho' => ?_, fun k' ho' => ?_⟩
  · intro hmem
    obtain hmem | hmem := List.mem_append.mp hmem
    · exact h.clear hmem
    · exact hclear (List.mem_singleton.mp hmem).symm
  · obtain ⟨-, ho⟩ | ⟨hlog, hsame⟩ := hcases ho'
    · cases ho
    · rw [hsame, h.same k' hlog]
  · obtain ⟨rfl, ho⟩ | ⟨hlog, hsame⟩ := hcases ho'
    · rw [← Option.some.inj ho] at hvalue
      exact Option.not_isSome_iff_eq_none.mp (by simp [hvalue])
    · rw [hsame, h.gone k' hlog]
  · obtain ⟨rfl, ho⟩ | ⟨hlog, hsame⟩ := hcases ho'
    · rw [← Option.some.inj ho] at hvalue
      exact hvalue
    · rw [hsame]
      exact h.present k' hlog

lemma Tracks.upsert (h : Tracks old log m) {k : K} (hvalue : (m' k).isSome)
    (hother : ∀ k', k' ≠ k → m' k' = m k') : Tracks old (log ++ [Delta.upsert k ()]) m' :=
  h.concat nofun (if_pos rfl) (fun k' hk => ⟨if_neg (Ne.symm hk), hother k' hk⟩) hvalue

lemma Tracks.delete (h : Tracks old log m) {k : K} (hvalue : m' k = none)
    (hother : ∀ k', k' ≠ k → m' k' = m k') : Tracks old (log ++ [Delta.delete k]) m' :=
  h.concat nofun (if_pos rfl) (fun k' hk => ⟨if_neg (Ne.symm hk), hother k' hk⟩) (by simp [hvalue])

lemma Tracks.dropSuperseded (h : Tracks old log m) : Tracks old (unsuperseded log).2 m where
  clear hmem := h.clear ((unsuperseded_sublist log).mem hmem)
  same k hk := h.same k (outcome_unsuperseded k log ▸ hk)
  gone k hk := h.gone k (outcome_unsuperseded k log ▸ hk)
  present k hk := h.present k (outcome_unsuperseded k log ▸ hk)

/-- Every change that is kept finds its value. -/
lemma Tracks.bind_isSome (h : Tracks old log m) {delta : Delta K Unit}
    (hdelta : delta ∈ (unsuperseded log).2) : (delta.bind m).isSome := by
  cases delta with
  | clear => rfl
  | delete key => rfl
  | upsert key value =>
    obtain ⟨value', hkey⟩ := outcome_of_kept h.clear hdelta
    simpa [Delta.bind] using h.present key hkey

lemma outcome_of_bind {bound : List (Delta K V)} (k : K)
    (h : List.Forall₂ (fun delta delta' => delta.bind m = some delta') log bound) :
    outcome k bound = (outcome k log).map fun o => o.bind fun _ => m k := by
  induction h with
  | nil => rfl
  | @cons delta delta' log bound hbind _ ih =>
    have heffect : delta'.effect k = (delta.effect k).map fun o => o.bind fun _ => m k := by
      cases delta with
      | clear =>
        obtain rfl := Option.some.inj hbind
        rfl
      | delete key =>
        obtain rfl := Option.some.inj hbind
        by_cases hk : key = k <;> simp [effect, hk]
      | upsert key value =>
        obtain ⟨value', hvalue, rfl⟩ := Option.map_eq_some_iff.mp hbind
        by_cases hk : key = k
        · subst hk
          simp [effect, hvalue]
        · simp [effect, hk]
    rw [outcome, outcome, ih, heffect]
    cases outcome k log <;> rfl

/-- **Late values.**  The kept changes with present values make of the earlier map the present
one. -/
theorem Tracks.replay_bind (h : Tracks old log m) {bound : List (Delta K V)}
    (hbound : List.Forall₂ (fun delta delta' => delta.bind m = some delta')
      (unsuperseded log).2 bound) : replay old bound = m := by
  funext k
  rw [replay_apply, outcome_of_bind k hbound, outcome_unsuperseded]
  match hlog : outcome k log with
  | none => exact (h.same k hlog).symm
  | some none => exact (h.gone k hlog).symm
  | some (some ()) => rfl

end Delta
end NestWeaver
