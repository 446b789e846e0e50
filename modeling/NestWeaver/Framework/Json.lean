import Mathlib.Data.Int.Notation
import Mathlib.Data.List.Basic
import Mathlib.Tactic.IntervalCases

/-!
# JSON values

JSON values and their compact serialization.  An object is the list of its fields in order, and a
number is either an integer or a float, given by its text.
-/

set_option linter.all false

namespace NestWeaver

inductive JsonNumber
  | int (n : ℤ)
  | float (text : String)
  deriving DecidableEq, Repr

inductive Json
  | null
  | bool (b : Bool)
  | num (n : JsonNumber)
  | str (s : String)
  | arr (items : List Json)
  | obj (fields : List (String × Json))
  deriving Repr

namespace Json

/-! ## Access -/

/-- The value of a field. -/
def get : Json → String → Option Json
  | .obj fields, key => (fields.find? fun f => f.1 = key).map Prod.snd
  | _, _ => none

def isObject : Json → Bool
  | .obj _ => true
  | _ => false

def isString : Json → Bool
  | .str _ => true
  | _ => false

def asStr : Json → Option String
  | .str s => some s
  | _ => none

/-- `is_i64() || is_u64()`: an integer without loss. -/
def isInteger : JsonNumber → Bool
  | .int n => -2 ^ 63 ≤ n ∧ n < 2 ^ 64
  | .float _ => false

/-- Indexing: null where there is nothing. -/
def getD (v : Json) (key : String) : Json := (v.get key).getD .null

def asArr : Json → Option (List Json)
  | .arr items => some items
  | _ => none

def item (v : Json) (i : ℕ) : Json := (v.asArr.bind (·[i]?)).getD .null

/-- The fields with one of them set, in its place or at the end. -/
def setField (key : String) (v : Json) : List (String × Json) → List (String × Json)
  | [] => [(key, v)]
  | f :: fields => if f.1 = key then (key, v) :: fields else f :: setField key v fields

/-- Setting a field of an object. -/
def set (v : Json) (key : String) (u : Json) : Json :=
  match v with
  | .obj fields => .obj (setField key u fields)
  | v => v

def setItem (v : Json) (i : ℕ) (u : Json) : Json :=
  match v with
  | .arr items => .arr (items.set i u)
  | v => v

/-! ## Setting fields -/

lemma get_obj_cons (f : String × Json) (fields : List (String × Json)) (key : String) :
    (Json.obj (f :: fields)).get key = if f.1 = key then some f.2 else (Json.obj fields).get key := by
  by_cases hf : f.1 = key
  · simp [get, hf]
  · simp [get, hf]

lemma get_setField (key k : String) (u : Json) (fields : List (String × Json)) :
    (Json.obj (setField key u fields)).get k =
      if k = key then some u else (Json.obj fields).get k := by
  induction fields with
  | nil =>
    rw [setField, get_obj_cons]
    by_cases hk : k = key
    · simp [hk]
    · have hne : ¬key = k := fun heq => hk heq.symm
      simp [hk, hne]
  | cons f fields ih =>
    rw [setField]
    by_cases hf : f.1 = key
    · rw [if_pos hf, get_obj_cons, get_obj_cons]
      by_cases hk : k = key
      · simp [hk]
      · have hne : ¬key = k := fun heq => hk heq.symm
        simp [hk, hne, hf]
    · rw [if_neg hf, get_obj_cons, get_obj_cons, ih]
      by_cases hk : k = key
      · subst hk
        simp [hf]
      · simp [hk]

lemma get_set (fields : List (String × Json)) (key k : String) (u : Json) :
    ((Json.obj fields).set key u).get k = if k = key then some u else (Json.obj fields).get k :=
  get_setField key k u fields

lemma isObject_iff {v : Json} : v.isObject = true ↔ ∃ fields, v = .obj fields := by
  cases v <;> simp [isObject]

lemma asArr_eq_some {v : Json} {items : List Json} : v.asArr = some items ↔ v = .arr items := by
  cases v <;> simp [asArr]

lemma isObject_of_get {v u : Json} {key : String} (h : v.get key = some u) : v.isObject = true := by
  cases v <;> first | rfl | cases h

lemma get_set_self {v : Json} (hv : v.isObject = true) (key : String) (u : Json) :
    (v.set key u).get key = some u := by
  obtain ⟨fields, rfl⟩ := isObject_iff.mp hv
  rw [get_set, if_pos rfl]

lemma get_set_ne {key k : String} (h : k ≠ key) (v u : Json) : (v.set key u).get k = v.get k := by
  cases v with
  | obj fields => rw [get_set, if_neg h]
  | _ => rfl

lemma isObject_set (v u : Json) (key : String) : (v.set key u).isObject = v.isObject := by
  cases v <;> rfl

lemma getD_of_get {v u : Json} {key : String} (h : v.get key = some u) : v.getD key = u := by
  rw [getD, h, Option.getD_some]

/-! ## Equality -/

mutual

/-- `PartialEq`: the order of fields does not matter. -/
def equal : Json → Json → Bool
  | .null, .null => true
  | .bool a, .bool b => a = b
  | .num a, .num b => a = b
  | .str a, .str b => a = b
  | .arr items, .arr items' => itemsEqual items items'
  | .obj fields, .obj fields' => fields.length = fields'.length && fieldsEqual fields fields'
  | _, _ => false

def itemsEqual : List Json → List Json → Bool
  | [], [] => true
  | v :: vs, v' :: vs' => v.equal v' && itemsEqual vs vs'
  | _, _ => false

/-- Each field has an equal one in the other object. -/
def fieldsEqual : List (String × Json) → List (String × Json) → Bool
  | [], _ => true
  | (key, v) :: fields, fields' =>
    (match fields'.lookup key with
    | some v' => v.equal v'
    | none => false) && fieldsEqual fields fields'

end

/-! ## Serialization -/

def hexDigit (n : ℕ) : Char := Nat.digitChar n

/-- One character of a string. -/
def escapeChar (c : Char) : List Char :=
  if c = '"' then ['\\', '"']
  else if c = '\\' then ['\\', '\\']
  else if c = '\n' then ['\\', 'n']
  else if c = '\r' then ['\\', 'r']
  else if c = '\t' then ['\\', 't']
  else if c = '\x08' then ['\\', 'b']
  else if c = '\x0c' then ['\\', 'f']
  else if c.toNat < 32 then ['\\', 'u', '0', '0', hexDigit (c.toNat / 16), hexDigit (c.toNat % 16)]
  else [c]

def stringText (s : String) : List Char := '"' :: (s.toList.flatMap escapeChar ++ ['"'])

def numberText : JsonNumber → List Char
  | .int n => if n < 0 then '-' :: Nat.toDigits 10 n.natAbs else Nat.toDigits 10 n.natAbs
  | .float text => text.toList

mutual

/-- Compact serialization. -/
def text : Json → List Char
  | .null => "null".toList
  | .bool true => "true".toList
  | .bool false => "false".toList
  | .num n => numberText n
  | .str s => stringText s
  | .arr items => '[' :: (itemsText items ++ [']'])
  | .obj fields => '{' :: (fieldsText fields ++ ['}'])

def itemsText : List Json → List Char
  | [] => []
  | [v] => v.text
  | v :: vs => v.text ++ ',' :: itemsText vs

def fieldsText : List (String × Json) → List Char
  | [] => []
  | [(key, v)] => stringText key ++ ':' :: v.text
  | (key, v) :: fs => stringText key ++ ':' :: (v.text ++ ',' :: fieldsText fs)

end

/-- `to_string`. -/
def toText (v : Json) : String := String.ofList v.text

/-! ## The text determines a string -/

/-- Reading back one character. -/
def unescape : List Char → Option (Char × List Char)
  | '\\' :: 'n' :: rest => some ('\n', rest)
  | '\\' :: 'r' :: rest => some ('\r', rest)
  | '\\' :: 't' :: rest => some ('\t', rest)
  | '\\' :: 'b' :: rest => some ('\x08', rest)
  | '\\' :: 'f' :: rest => some ('\x0c', rest)
  | '\\' :: 'u' :: '0' :: '0' :: a :: b :: rest =>
    (List.range 32).findSome? fun n =>
      if hexDigit (n / 16) = a ∧ hexDigit (n % 16) = b then some (Char.ofNat n, rest) else none
  | '\\' :: c :: rest => some (c, rest)
  | c :: rest => some (c, rest)
  | [] => none

/-- The characters with an escape of their own. -/
def escaped : List Char := ['"', '\\', '\n', '\r', '\t', '\x08', '\x0c']

lemma escapeChar_of_notMem {c : Char} (h : c ∉ escaped) : escapeChar c =
    if c.toNat < 32 then ['\\', 'u', '0', '0', hexDigit (c.toNat / 16), hexDigit (c.toNat % 16)]
    else [c] := by
  simp only [escaped, List.mem_cons, List.not_mem_nil, or_false, not_or] at h
  obtain ⟨h₁, h₂, h₃, h₄, h₅, h₆, h₇⟩ := h
  rw [escapeChar, if_neg h₁, if_neg h₂, if_neg h₃, if_neg h₄, if_neg h₅, if_neg h₆, if_neg h₇]

lemma unescape_escapeChar (c : Char) (rest : List Char) :
    unescape (escapeChar c ++ rest) = some (c, rest) := by
  by_cases hescaped : c ∈ escaped
  · simp only [escaped, List.mem_cons, List.not_mem_nil, or_false] at hescaped
    obtain rfl | rfl | rfl | rfl | rfl | rfl | rfl := hescaped <;> rfl
  · rw [escapeChar_of_notMem hescaped]
    by_cases hcontrol : c.toNat < 32
    · -- a control character, by its code
      rw [if_pos hcontrol]
      obtain ⟨n, hn, rfl⟩ : ∃ n < 32, c = Char.ofNat n := ⟨c.toNat, hcontrol, (Char.ofNat_toNat c).symm⟩
      interval_cases n <;> rfl
    · have hbackslash : c ≠ '\\' := fun h => hescaped (by rw [h]; decide)
      rw [if_neg hcontrol, List.singleton_append, unescape.eq_def]
      split <;> simp_all

lemma escapeChar_head (c : Char) : ∃ x xs, escapeChar c = x :: xs ∧ x ≠ '"' := by
  by_cases hescaped : c ∈ escaped
  · have hall : escaped.all fun c => (escapeChar c).head? = some '\\' := by decide
    obtain ⟨xs, hxs⟩ := List.head?_eq_some_iff.mp (of_decide_eq_true (List.all_eq_true.mp hall c hescaped))
    exact ⟨'\\', xs, hxs, by decide⟩
  · rw [escapeChar_of_notMem hescaped]
    by_cases hcontrol : c.toNat < 32
    · exact ⟨_, _, if_pos hcontrol, by decide⟩
    · exact ⟨c, [], if_neg hcontrol, fun h => hescaped (by rw [h]; decide)⟩

lemma flatMap_escapeChar_inj {s t : List Char}
    (h : s.flatMap escapeChar ++ ['"'] = t.flatMap escapeChar ++ ['"']) : s = t := by
  induction s generalizing t with
  | nil =>
    cases t with
    | nil => rfl
    | cons c t =>
      obtain ⟨x, xs, hx, hne⟩ := escapeChar_head c
      rw [List.flatMap_cons, hx] at h
      exact absurd (List.cons.inj h).1.symm hne
  | cons c s ih =>
    cases t with
    | nil =>
      obtain ⟨x, xs, hx, hne⟩ := escapeChar_head c
      rw [List.flatMap_cons, hx] at h
      exact absurd (List.cons.inj h).1 hne
    | cons c' t =>
      -- reading one character back from both sides
      rw [List.flatMap_cons, List.flatMap_cons, List.append_assoc, List.append_assoc] at h
      have hread := congrArg unescape h
      rw [unescape_escapeChar, unescape_escapeChar, Option.some.injEq, Prod.mk.injEq] at hread
      rw [hread.1, ih hread.2]

lemma stringText_inj {s t : String} (h : stringText s = stringText t) : s = t :=
  String.toList_inj.mp (flatMap_escapeChar_inj (List.cons.inj h).2)

lemma numberText_int_inj {m n : ℤ} (h : numberText (.int m) = numberText (.int n)) : m = n := by
  have hdigits : ∀ a b : ℕ, Nat.toDigits 10 a = Nat.toDigits 10 b → a = b := by
    intro a b hab
    have hval := congrArg (fun l => Nat.ofDigitChars 10 l 0) hab
    simpa using hval
  have hsign : ∀ a (l : List Char), Nat.toDigits 10 a ≠ '-' :: l := by
    intro a l ha
    have hdigit : ('-' : Char).isDigit = true :=
      Nat.isDigit_of_mem_toDigits (b := 10) (n := a) (by decide) (by decide)
        (ha ▸ List.mem_cons_self)
    exact absurd hdigit (by decide)
  simp only [numberText] at h
  split_ifs at h with hm hn hn
  · have habs := hdigits _ _ (List.cons.inj h).2
    omega
  · exact absurd h.symm (hsign _ _)
  · exact absurd h (hsign _ _)
  · have habs := hdigits _ _ h
    omega

end Json
end NestWeaver
