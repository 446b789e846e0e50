import Mathlib.Data.List.Basic

/-!
# UTF-8 self-synchronisation

A byte search finds a substring at byte offsets, a character search at character offsets.
This module shows the two agree for UTF-8: wherever the encoding of a non-empty string
occurs inside the encoding of a text, the string itself occurs in the text
(`infix_of_encode_infix`).  The two facts behind it are that a code is determined by the bytes
that start with it (`encodeChar_prefix_unique`) and that no code begins inside another one
(`encode_split_at_first`).

A decoder that never fails puts a replacement character in the place of every ill-formed part
(`decodeLossy`), and gives an encoded text back (`decodeLossy_encode`).
-/

set_option linter.all false

namespace NestWeaver
namespace Utf8

/-- The UTF-8 bytes of a sequence of characters. -/
def encode (s : List Char) : List UInt8 := s.flatMap String.utf8EncodeChar

@[simp] lemma encode_nil : encode [] = [] := rfl

@[simp] lemma encode_cons (c : Char) (s : List Char) :
    encode (c :: s) = String.utf8EncodeChar c ++ encode s := rfl

@[simp] lemma encode_append (s t : List Char) : encode (s ++ t) = encode s ++ encode t := by
  simp [encode]

lemma encode_singleton (c : Char) : encode [c] = String.utf8EncodeChar c := by
  simp [encode]

/-- A byte list starts at a character boundary: it is empty or begins with a leading byte. -/
def StartsChar : List UInt8 → Prop
  | [] => True
  | b :: _ => b.IsUTF8FirstByte

lemma startsChar_encodeChar_append (c : Char) (rest : List UInt8) :
    StartsChar (String.utf8EncodeChar c ++ rest) := by
  have hne : String.utf8EncodeChar c ≠ [] := String.utf8EncodeChar_ne_nil
  obtain ⟨b, bs, hb⟩ := List.exists_cons_of_ne_nil hne
  have hpos : 0 < (String.utf8EncodeChar c).length := by simp [hb]
  have hfirst : (String.utf8EncodeChar c)[0].IsUTF8FirstByte :=
    UInt8.isUTF8FirstByte_getElem_zero_utf8EncodeChar
  simpa [hb, StartsChar] using hfirst

/-- Two codes that begin the same byte list are the codes of one character. -/
lemma encodeChar_prefix_unique {c d : Char} {x y : List UInt8}
    (h : String.utf8EncodeChar c ++ x = String.utf8EncodeChar d ++ y) : c = d := by
  have hc : ((String.utf8EncodeChar c).toByteArray ++ x.toByteArray).utf8DecodeChar? 0 = some c :=
    ByteArray.utf8DecodeChar?_utf8EncodeChar_append
  have hd : ((String.utf8EncodeChar d).toByteArray ++ y.toByteArray).utf8DecodeChar? 0 = some d :=
    ByteArray.utf8DecodeChar?_utf8EncodeChar_append
  rw [← List.toByteArray_append, h, List.toByteArray_append, hd] at hc
  exact (Option.some.inj hc).symm

/-- A code contains no leading byte after its first, so a text can be cut at any offset where
the rest of its bytes starts a character. -/
lemma encode_split_at_first (t : List Char) {a x : List UInt8}
    (h : encode t = a ++ x) (hx : StartsChar x) :
    ∃ t₁ t₂, t = t₁ ++ t₂ ∧ encode t₁ = a ∧ encode t₂ = x := by
  induction t generalizing a with
  | nil =>
    have ha : a = [] ∧ x = [] := by simpa using h.symm
    exact ⟨[], [], rfl, by simp [ha.1], by simp [ha.2]⟩
  | cons c t ih =>
    by_cases ha : a = []
    · exact ⟨[], c :: t, rfl, by simp [ha], by simpa [ha] using h⟩
    rw [encode_cons, List.append_eq_append_iff] at h
    rcases h with ⟨a', ha', ht⟩ | ⟨b', hb', hx'⟩
    · obtain ⟨t₁, t₂, rfl, h₁, h₂⟩ := ih ht
      exact ⟨c :: t₁, t₂, rfl, by simp [h₁, ha'], h₂⟩
    · -- the cut falls inside the code of `c`, or right behind it
      cases b' with
      | nil => exact ⟨[c], t, rfl, by simpa [encode_singleton] using hb', by simpa using hx'.symm⟩
      | cons b bs =>
        have hlen : a.length < (String.utf8EncodeChar c).length := by simp [hb']
        have hbyte : (String.utf8EncodeChar c)[a.length] = b := by simp [hb']
        have hb : b.IsUTF8FirstByte := by simpa [hx', StartsChar] using hx
        have hzero : a.length = 0 :=
          UInt8.isUTF8FirstByte_getElem_utf8EncodeChar.mp (hbyte ▸ hb)
        exact absurd (List.length_eq_zero_iff.mp hzero) ha

/-- An encoding that begins with the encoding of `m` is the encoding of a text beginning
with `m`. -/
lemma prefix_of_encode_prefix (m : List Char) {t : List Char} {b : List UInt8}
    (h : encode t = encode m ++ b) : ∃ post, t = m ++ post := by
  induction m generalizing t with
  | nil => exact ⟨t, rfl⟩
  | cons c m ih =>
    cases t with
    | nil =>
      have hnil : String.utf8EncodeChar c = [] := by
        have := h.symm
        simp only [encode_nil, encode_cons, List.append_assoc, List.append_eq_nil_iff] at this
        exact this.1
      exact absurd hnil String.utf8EncodeChar_ne_nil
    | cons d t =>
      rw [encode_cons, encode_cons, List.append_assoc] at h
      obtain rfl := encodeChar_prefix_unique h
      obtain ⟨post, rfl⟩ := ih (List.append_cancel_left h)
      exact ⟨post, rfl⟩

/-- **Self-synchronisation.** A byte occurrence of a non-empty string's encoding is a character
occurrence of the string. -/
theorem infix_of_encode_infix {t m : List Char} (hm : m ≠ []) {a b : List UInt8}
    (h : encode t = a ++ (encode m ++ b)) : ∃ pre post, t = pre ++ (m ++ post) := by
  obtain ⟨c, m', rfl⟩ := List.exists_cons_of_ne_nil hm
  have hstart : StartsChar (encode (c :: m') ++ b) := by
    rw [encode_cons, List.append_assoc]
    exact startsChar_encodeChar_append c _
  obtain ⟨pre, t₂, rfl, -, h₂⟩ := encode_split_at_first t h hstart
  obtain ⟨post, rfl⟩ := prefix_of_encode_prefix _ h₂
  exact ⟨pre, post, rfl⟩

/-- A byte below `128` is in an encoding only as the code of its character. -/
lemma mem_of_ascii_mem_encode {c : Char} {b : UInt8} (hc : String.utf8EncodeChar c = [b])
    {s : List Char} (h : b ∈ encode s) : c ∈ s := by
  obtain ⟨front, back, hsplit⟩ := List.append_of_mem h
  have hinfix : encode s = front ++ (encode [c] ++ back) := by
    rw [hsplit, encode_singleton, hc, List.singleton_append]
  obtain ⟨pre, post, rfl⟩ := infix_of_encode_infix (List.cons_ne_nil c []) hinfix
  simp

/-! ## Decoding what may be ill-formed -/

def isContinuation (b : UInt8) : Bool := 0x80 ≤ b && b ≤ 0xBF

/-- Two bytes that some code of three or four bytes begins with. -/
def beginsLongCode (b₀ b₁ : UInt8) : Bool :=
  b₀ == 0xE0 && 0xA0 ≤ b₁ && b₁ ≤ 0xBF
    || 0xE1 ≤ b₀ && b₀ ≤ 0xEC && isContinuation b₁
    || b₀ == 0xED && 0x80 ≤ b₁ && b₁ ≤ 0x9F
    || 0xEE ≤ b₀ && b₀ ≤ 0xEF && isContinuation b₁
    || b₀ == 0xF0 && 0x90 ≤ b₁ && b₁ ≤ 0xBF
    || 0xF1 ≤ b₀ && b₀ ≤ 0xF3 && isContinuation b₁
    || b₀ == 0xF4 && 0x80 ≤ b₁ && b₁ ≤ 0x8F

/-- How many bytes one replacement character stands for: the longest part of a code, and one at least. -/
def illFormedLength : List UInt8 → ℕ
  | b₀ :: b₁ :: rest =>
    if beginsLongCode b₀ b₁ then
      match rest with
      | b₂ :: _ => if 0xF0 ≤ b₀ && isContinuation b₂ then 3 else 2
      | [] => 2
    else 1
  | _ => 1

def decodeLossyFrom : ℕ → List UInt8 → List Char
  | 0, _ => []
  | _ + 1, [] => []
  | fuel + 1, bytes =>
    match bytes.toByteArray.utf8DecodeChar? 0 with
    | some c => c :: decodeLossyFrom fuel (bytes.drop c.utf8Size)
    | none => '\uFFFD' :: decodeLossyFrom fuel (bytes.drop (illFormedLength bytes))

def decodeLossy (bytes : List UInt8) : List Char := decodeLossyFrom bytes.length bytes

lemma decodeLossyFrom_encode (s : List Char) {fuel : ℕ} (h : (encode s).length ≤ fuel) :
    decodeLossyFrom fuel (encode s) = s := by
  induction s generalizing fuel with
  | nil =>
    cases fuel with
    | zero => rfl
    | succ fuel => rfl
  | cons c s ih =>
    have hlength : (String.utf8EncodeChar c).length = c.utf8Size := String.length_utf8EncodeChar c
    have hpos : 0 < c.utf8Size := c.utf8Size_pos
    rw [encode_cons, List.length_append] at h
    obtain ⟨fuel, rfl⟩ : ∃ n, fuel = n + 1 := ⟨fuel - 1, by omega⟩
    obtain ⟨b, bs, hcode⟩ := List.exists_cons_of_ne_nil (String.utf8EncodeChar_ne_nil (c := c))
    have hdecode : (encode (c :: s)).toByteArray.utf8DecodeChar? 0 = some c := by
      rw [encode_cons, List.toByteArray_append]
      exact ByteArray.utf8DecodeChar?_utf8EncodeChar_append
    have hdrop : (encode (c :: s)).drop c.utf8Size = encode s := by
      rw [encode_cons, ← hlength, List.drop_left]
    have hcons : encode (c :: s) = b :: (bs ++ encode s) := by
      rw [encode_cons, hcode, List.cons_append]
    rw [hcons] at hdecode hdrop ⊢
    simp only [decodeLossyFrom, hdecode, hdrop]
    rw [ih (by omega)]

/-- **Encoded texts are read back.** -/
theorem decodeLossy_encode (s : List Char) : decodeLossy (encode s) = s :=
  decodeLossyFrom_encode s (Nat.le_refl _)

end Utf8
end NestWeaver
