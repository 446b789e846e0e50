import NestWeaver.Store.Regex.Trigram

/-!
# Soundness of the trigram condition

Whatever the planner derives from a pattern, a text with a match satisfies it, so the index drops
no document the full regex would match.  The carrier of the induction is `Tells`: a match of a
sub-expression is, up to case fold, one of its exact strings, and the text satisfies its
requirement.  Each node kind keeps it (`concatStep_inv`, `alternationInfo_tells`,
`repetitionInfo_tells`), at every value of the size limits.
-/

set_option linter.all false

namespace NestWeaver
namespace Regex

open Hir Utf8

/-! ## Trigrams of an occurrence -/

lemma mem_windows3 {w t : Str} : w ∈ windows3 t ↔ w.length = 3 ∧ w <:+: t := by
  induction t using windows3.induct with
  | case1 a b c rest ih =>
    have hcons : w <:+: a :: b :: c :: rest ↔ w <+: a :: b :: c :: rest ∨ w <:+: b :: c :: rest :=
      List.infix_cons_iff
    rw [windows3, List.mem_cons, ih, hcons]
    constructor
    · rintro (rfl | ⟨hlen, hw⟩)
      · exact ⟨rfl, .inl ⟨rest, rfl⟩⟩
      · exact ⟨hlen, .inr hw⟩
    · rintro ⟨hlen, ⟨post, hw⟩ | hw⟩
      · match w, hlen with
        | [_, _, _], _ => simp_all
      · exact .inr ⟨hlen, hw⟩
  | case2 t hshort =>
    have hlt : t.length < 3 := by
      match t, hshort with
      | [], _ | [_], _ | [_, _], _ => simp
      | a :: b :: c :: rest, h => exact (h a b c rest rfl).elim
    have hnil : windows3 t = [] := by
      unfold windows3
      split
      · exact absurd hlt (by simp)
      · rfl
    simp only [hnil, List.not_mem_nil, false_iff, not_and]
    intro hlen hw
    have := hw.length_le
    omega

variable {lower : Char → Str} {caps : Caps}

@[simp] lemma foldCase_append (s t : Str) :
    foldCase lower (s ++ t) = foldCase lower s ++ foldCase lower t := by
  simp [foldCase]

/-- The trigrams of a substring are trigrams of the text. -/
lemma trigrams_subset_of_infix (pre m post : Str) :
    trigrams lower m ⊆ trigrams lower (pre ++ (m ++ post)) := by
  intro w hw
  simp only [trigrams, List.mem_toFinset, mem_windows3] at hw ⊢
  refine ⟨hw.1, hw.2.trans ⟨foldCase lower pre, foldCase lower post, ?_⟩⟩
  simp

lemma trigrams_congr {m s : Str} (h : foldCase lower m = foldCase lower s) :
    trigrams lower m = trigrams lower s := by
  simp [trigrams, h]

/-- The trigrams of a string that occurs in the bytes of a text, up to case fold. -/
lemma trigrams_subset_of_at {text m s : Str} {i j : ℕ} (h : At (encode text) i (encode m) j)
    (hfold : foldCase lower m = foldCase lower s) : trigrams lower s ⊆ trigrams lower text := by
  rw [← trigrams_congr hfold]
  obtain ⟨pre, post, heq, -, -⟩ := h
  by_cases hm : m = []
  · simp [hm, trigrams, foldCase, windows3]
  · obtain ⟨pre', post', rfl⟩ := infix_of_encode_infix hm heq
    exact trigrams_subset_of_infix pre' m post'

/-! ## Sets of strings -/

@[simp] lemma mem_setInsert {x y : Str} {s : List Str} :
    y ∈ setInsert x s ↔ y = x ∨ y ∈ s := by
  induction s with
  | nil => simp [setInsert]
  | cons z zs ih =>
    simp only [setInsert]
    split_ifs with hlt heq
    · simp
    · simp [heq]
    · simp only [List.mem_cons, ih]
      tauto

@[simp] lemma mem_setCollect {y : Str} {xs : List Str} : y ∈ setCollect xs ↔ y ∈ xs := by
  have hfold : ∀ (xs s : List Str),
      y ∈ xs.foldl (fun s x => setInsert x s) s ↔ y ∈ xs ∨ y ∈ s := by
    intro xs
    induction xs with
    | nil => simp
    | cons x xs ih =>
      intro s
      rw [List.foldl_cons, ih, mem_setInsert, List.mem_cons]
      tauto
  simp [setCollect, hfold]

/-! ## Requirements -/

/-- A set of trigrams meets a requirement: some branch of it is included. -/
def Satisfied (dnf : TrigramDnf) (T : Finset Str) : Prop :=
  ∀ clauses, dnf = some clauses → ∃ clause ∈ clauses, clause ⊆ T

variable {T : Finset Str}

@[simp] lemma satisfied_none : Satisfied none T := by
  intro clauses h
  cases h

@[simp] lemma satisfied_some {clauses : List (Finset Str)} :
    Satisfied (some clauses) T ↔ ∃ clause ∈ clauses, clause ⊆ T := by
  simp [Satisfied]

/-- The shared trigrams of the branches are among each branch. -/
lemma shared_subset {first clause : Finset Str} {others : List (Finset Str)}
    (h : clause ∈ first :: others) :
    others.foldl (fun shared branch => shared.filter (· ∈ branch)) first ⊆ clause := by
  induction others generalizing first clause with
  | nil => simp_all
  | cons branch others ih =>
    rw [List.foldl_cons]
    have hkept := ih (List.mem_cons_self (a := first.filter (· ∈ branch)))
    rcases List.mem_cons.mp h with rfl | h
    · exact hkept.trans (Finset.filter_subset _ _)
    · rcases List.mem_cons.mp h with rfl | h
      · exact hkept.trans fun x hx => (Finset.mem_filter.mp hx).2
      · exact ih (List.mem_cons_of_mem _ h)

lemma dnfOr_satisfied {a b : TrigramDnf} (h : Satisfied a T ∨ Satisfied b T) :
    Satisfied (dnfOr caps a b) T := by
  rcases a with _ | a
  · simp [dnfOr]
  rcases b with _ | b
  · simp [dnfOr]
  obtain ⟨clause, hmem, hsub⟩ : ∃ clause ∈ a ++ b, clause ⊆ T := by
    rcases h with h | h <;> obtain ⟨clause, hmem, hsub⟩ := satisfied_some.mp h
    · exact ⟨clause, List.mem_append_left _ hmem, hsub⟩
    · exact ⟨clause, List.mem_append_right _ hmem, hsub⟩
  simp only [dnfOr]
  split
  · simp
  · rename_i first others heq
    rw [heq] at hmem
    split_ifs with hcap hshared
    · simp
    · exact satisfied_some.mpr ⟨_, List.mem_singleton_self _, (shared_subset hmem).trans hsub⟩
    · exact satisfied_some.mpr ⟨clause, hmem, hsub⟩

lemma dnfAnd_satisfied {a b : TrigramDnf} (ha : Satisfied a T) (hb : Satisfied b T) :
    Satisfied (dnfAnd caps a b) T := by
  rcases a with _ | a
  · simpa [dnfAnd] using hb
  rcases b with _ | b
  · simpa [dnfAnd] using ha
  simp only [dnfAnd]
  split_ifs
  -- past the cap one conjunct is kept
  · exact ha
  · exact hb
  · obtain ⟨left, hl, hlT⟩ := satisfied_some.mp ha
    obtain ⟨right, hr, hrT⟩ := satisfied_some.mp hb
    refine satisfied_some.mpr ⟨left ∪ right, ?_, Finset.union_subset hlT hrT⟩
    exact List.mem_flatMap.mpr ⟨left, hl, List.mem_map_of_mem hr⟩

lemma mem_exactBranches {strings : List Str} {branches : List (Finset Str)} {s : Str}
    (h : exactBranches lower strings = some branches) (hs : s ∈ strings) :
    trigrams lower s ∈ branches := by
  induction strings generalizing branches with
  | nil => simp at hs
  | cons string rest ih =>
    rw [exactBranches] at h
    split_ifs at h with hempty
    obtain ⟨tail, htail, rfl⟩ := Option.map_eq_some_iff.mp h
    rcases List.mem_cons.mp hs with rfl | hs
    · exact List.mem_cons_self
    · exact List.mem_cons_of_mem _ (ih htail hs)

lemma dnfOfExact_satisfied {strings : List Str} {s : Str} (hs : s ∈ strings)
    (hT : trigrams lower s ⊆ T) : Satisfied (dnfOfExact lower caps strings) T := by
  rw [dnfOfExact]
  split
  · exact satisfied_none
  · rename_i branches heq
    exact dnfOr_satisfied (.inl (satisfied_some.mpr ⟨_, mem_exactBranches heq hs, hT⟩))

/-! ## What a sub-expression tells -/

/-- What `info` says of a match from `i` to `j` in a text is true of it. -/
structure Tells (lower : Char → Str) (text : Str) (info : TrigramInfo) (i j : ℕ) : Prop where
  exact : ∀ strings, info.exact = some strings → ∃ s ∈ strings, ∃ m,
    At (encode text) i (encode m) j ∧ foldCase lower m = foldCase lower s
  required : Satisfied info.required (trigrams lower text)

variable {text : Str} {i j : ℕ}

lemma tells_required {required : TrigramDnf} (h : Satisfied required (trigrams lower text)) :
    Tells lower text ⟨none, required⟩ i j :=
  ⟨by rintro _ ⟨⟩, h⟩

lemma tells_unconstrained : Tells lower text .unconstrained i j := tells_required satisfied_none

lemma tells_ofExact {strings : List Str} {s m : Str} (hs : s ∈ strings)
    (hat : At (encode text) i (encode m) j) (hfold : foldCase lower m = foldCase lower s) :
    Tells lower text (.ofExact strings) i j := by
  constructor
  · rintro _ ⟨⟩
    exact ⟨s, hs, m, hat, hfold⟩
  · exact satisfied_none

lemma Tells.requirement {info : TrigramInfo} (h : Tells lower text info i j) :
    Satisfied (info.requirement lower caps) (trigrams lower text) := by
  rw [TrigramInfo.requirement]
  split
  · rename_i strings heq
    obtain ⟨s, hs, m, hat, hfold⟩ := h.exact strings heq
    exact dnfOfExact_satisfied hs (trigrams_subset_of_at hat hfold)
  · exact h.required

/-! ## Classes and literals -/

lemma fromUtf8_encode {bytes : List UInt8} {text : Str} (h : fromUtf8 bytes = some text) :
    bytes = encode text := by
  obtain ⟨str, hstr, rfl⟩ := Option.map_eq_some_iff.mp h
  rw [String.fromUTF8?] at hstr
  split_ifs at hstr with hvalid
  cases hstr
  have hbytes := String.utf8Encode_toList (b := String.fromUTF8 bytes.toByteArray hvalid)
  exact (List.toByteArray_inj.mp hbytes).symm

lemma mem_charRange {lo hi c : Char} (hlo : lo.val ≤ c.val) (hhi : c.val ≤ hi.val) :
    c ∈ charRange lo hi := by
  have hlo' : lo.toNat ≤ c.toNat := hlo
  have hhi' : c.toNat ≤ hi.toNat := hhi
  refine List.mem_filterMap.mpr ⟨c.toNat, List.mem_range'_1.mpr (by omega), ?_⟩
  have hvalid : c.toNat.isValidChar := c.valid
  rw [if_pos hvalid, Char.ofNat_toNat]

/-- The fold of a class element is a single character that folds to itself. -/
lemma foldRange_spec {chars : List Char} {out out' : List Str}
    (h : foldRange lower chars out = some out') :
    (∀ s ∈ out, s ∈ out') ∧
      ∀ c ∈ chars, lower c ∈ out' ∧ foldCase lower (lower c) = lower c := by
  induction chars generalizing out with
  | nil =>
    cases h
    simp
  | cons c chars ih =>
    simp only [foldRange, List.foldlM_cons] at h
    split_ifs at h with hfold
    · cases h
    obtain ⟨hout, hchars⟩ := ih h
    refine ⟨fun s hs => hout s (mem_setInsert.mpr (.inr hs)), ?_⟩
    rintro d hd
    rcases List.mem_cons.mp hd with rfl | hd
    · exact ⟨hout _ (mem_setInsert.mpr (.inl rfl)), by tauto⟩
    · exact hchars d hd

lemma classRanges_spec {ranges : List ClassUnicodeRange} {size : ℕ} {out out' : List Str}
    (h : classRanges lower caps ranges size out = some out') :
    (∀ s ∈ out, s ∈ out') ∧ ∀ r ∈ ranges, ∀ c : Char, r.start.val ≤ c.val → c.val ≤ r.end.val →
      lower c ∈ out' ∧ foldCase lower (lower c) = lower c := by
  induction ranges generalizing size out with
  | nil =>
    cases h
    simp
  | cons range ranges ih =>
    simp only [classRanges] at h
    split_ifs at h with hsize
    split at h
    · cases h
    rename_i mid hmid
    obtain ⟨hout, hchars⟩ := foldRange_spec hmid
    obtain ⟨hmid', hranges⟩ := ih h
    refine ⟨fun s hs => hmid' s (hout s hs), ?_⟩
    intro r hr c hlo hhi
    rcases List.mem_cons.mp hr with rfl | hr
    · obtain ⟨hc, hfold⟩ := hchars c (mem_charRange hlo hhi)
      exact ⟨hmid' _ hc, hfold⟩
    · exact hranges r hr c hlo hhi

lemma classExact_tells {cls : Hir.Class} {bs : List UInt8} {strings : List Str}
    (h : classExact lower caps cls = some strings) (hacc : cls.Accepts bs)
    (hat : At (encode text) i bs j) : Tells lower text (.ofExact strings) i j := by
  cases cls with
  | bytes ranges => cases h
  | unicode ranges =>
    obtain ⟨r, hr, c, hlo, hhi, rfl⟩ := hacc
    obtain ⟨hc, hfold⟩ := (classRanges_spec h).2 r hr c hlo hhi
    refine tells_ofExact hc (m := [c]) (by rwa [encode_singleton]) ?_
    rw [hfold]
    simp [foldCase]

/-! ## Concatenations -/

/-- The invariant of the walk over a concatenation that began at `i` and stands at `k`: the
current strings end a match here, the requirement holds of the text, and as long as every child
was exact the current strings are the whole match. -/
structure ConcatInv (lower : Char → Str) (text : Str) (st : ConcatState) (i k : ℕ) : Prop where
  current : ∃ l, ∃ s ∈ st.current.getD setEmpty, ∃ m, At (encode text) l (encode m) k ∧
    foldCase lower m = foldCase lower s ∧ (st.allExact = true → l = i)
  required : Satisfied st.required (trigrams lower text)

lemma ConcatState.init_inv (h : At (encode text) i [] i) :
    ConcatInv lower text .init i i :=
  ⟨⟨i, [], by simp [ConcatState.init, setEmpty], [], h, rfl, fun _ => rfl⟩, satisfied_none⟩

/-- The strings in hand give a requirement of their own. -/
lemma ConcatInv.pending {st : ConcatState} {k : ℕ} (h : ConcatInv lower text st i k) :
    Satisfied (dnfOfExact lower caps (st.current.getD setEmpty)) (trigrams lower text) := by
  obtain ⟨l, s, hs, m, hat, hfold, -⟩ := h.current
  exact dnfOfExact_satisfied hs (trigrams_subset_of_at hat hfold)

lemma concatStep_inv {st : ConcatState} {info : TrigramInfo} {k k' : ℕ}
    (h : ConcatInv lower text st i k) (hinfo : Tells lower text info k k')
    (hend : At (encode text) k' [] k') :
    ConcatInv lower text (concatStep lower caps st info) i k' := by
  unfold concatStep
  split
  · rename_i strings heq
    obtain ⟨l, s, hs, m, hat, hfold, hl⟩ := h.current
    obtain ⟨s', hs', m', hat', hfold'⟩ := hinfo.exact strings heq
    dsimp only
    split_ifs with hcap
    · -- the strings of the child are appended to the current ones
      refine ⟨⟨l, s ++ s', ?_, m ++ m', by simpa using hat.append hat', ?_, hl⟩, h.required⟩
      · simp only [Option.getD_some, mem_setCollect, List.mem_flatMap, List.mem_map]
        exact ⟨s, hs, s', hs', rfl⟩
      · simp [hfold, hfold']
    · -- the current strings become a requirement, and the child's take their place
      exact ⟨⟨k, s', hs', m', hat', hfold', by simp⟩,
        dnfAnd_satisfied h.required h.pending⟩
  · refine ⟨⟨k', [], by simp [setEmpty], [], hend, rfl, by simp⟩, ?_⟩
    exact dnfAnd_satisfied (dnfAnd_satisfied h.required h.pending) hinfo.required

lemma ConcatInv.tells {infos : List TrigramInfo}
    (h : ConcatInv lower text (infos.foldl (concatStep lower caps) .init) i j) :
    Tells lower text (concatInfo lower caps infos) i j := by
  simp only [concatInfo]
  split_ifs with hall
  · obtain ⟨l, s, hs, m, hat, hfold, hl⟩ := h.current
    obtain rfl := hl hall
    exact tells_ofExact hs hat hfold
  · exact tells_required (dnfAnd_satisfied h.required h.pending)

/-! ## Alternations and repetitions -/

lemma orLoop_satisfied_of_acc {infos : List TrigramInfo} {required : TrigramDnf}
    (h : Satisfied required T) : Satisfied (orLoop lower caps infos required) T := by
  induction infos generalizing required with
  | nil => exact h
  | cons info infos ih =>
    have hor : Satisfied (dnfOr caps required (info.requirement lower caps)) T :=
      dnfOr_satisfied (.inl h)
    rw [orLoop]
    split
    · exact satisfied_none
    · rename_i dnf heq
      exact ih (heq ▸ hor)

lemma orLoop_satisfied {infos : List TrigramInfo} {required : TrigramDnf} {info : TrigramInfo}
    (hmem : info ∈ infos) (h : Satisfied (info.requirement lower caps) T) :
    Satisfied (orLoop lower caps infos required) T := by
  induction infos generalizing required with
  | nil => simp at hmem
  | cons first infos ih =>
    rw [orLoop]
    split
    · exact satisfied_none
    · rename_i dnf heq
      rcases List.mem_cons.mp hmem with rfl | hmem
      · exact orLoop_satisfied_of_acc (heq ▸ dnfOr_satisfied (.inr h))
      · exact ih hmem

lemma alternationInfo_tells {infos : List TrigramInfo} {info : TrigramInfo} (hmem : info ∈ infos)
    (h : Tells lower text info i j) : Tells lower text (alternationInfo lower caps infos) i j := by
  simp only [alternationInfo]
  split_ifs with hexact
  · have hsome := List.all_eq_true.mp hexact.1 info hmem
    obtain ⟨strings, hstrings⟩ := Option.isSome_iff_exists.mp hsome
    obtain ⟨s, hs, m, hat, hfold⟩ := h.exact strings hstrings
    refine tells_ofExact ?_ hat hfold
    exact mem_setCollect.mpr (List.mem_flatMap.mpr ⟨info, hmem, by simpa [hstrings] using hs⟩)
  · exact tells_required (orLoop_satisfied hmem h.requirement)

lemma repetitionInfo_tells {min : ℕ} {max : Option ℕ} {sub : TrigramInfo} {r : ℕ → ℕ → Prop}
    {n : ℕ} (hsub : ∀ a b, r a b → Tells lower text sub a b) (hi : At (encode text) i [] i)
    (hmin : min ≤ n) (hmax : ∀ m, max = some m → n ≤ m) (h : Iterate r n i j) :
    Tells lower text (repetitionInfo lower caps min max sub) i j := by
  unfold repetitionInfo
  split_ifs with hone hopt hzero
  · -- exactly one copy
    obtain rfl : n = 1 := le_antisymm (hmax 1 hone.2) (hone.1 ▸ hmin)
    obtain ⟨k, hk, rfl⟩ := h
    exact hsub i _ hk
  · split
    · split_ifs
      · rename_i strings heq _
        have hn : n = 0 ∨ n = 1 := by have := hmax 1 hopt.2; omega
        rcases hn with rfl | rfl
        · obtain rfl : i = j := h
          exact tells_ofExact (s := []) (m := []) (mem_setInsert.mpr (.inl rfl)) hi rfl
        · obtain ⟨k, hk, rfl⟩ := h
          obtain ⟨s, hs, m, hat, hfold⟩ := (hsub i _ hk).exact strings heq
          exact tells_ofExact (mem_setInsert.mpr (.inr hs)) hat hfold
      · exact tells_unconstrained
    · exact tells_unconstrained
  · exact tells_unconstrained
  · -- at least one copy
    obtain ⟨k, hk⟩ := h.first (by omega)
    exact tells_required (hsub i k hk).requirement

/-! ## The walk -/

variable {look : Look → List UInt8 → ℕ → Prop}

mutual

/-- What the walk derives from a tree is true of each of its matches. -/
lemma trigramInfo_tells : ∀ (h : Hir) (i j : ℕ), h.Matches look (encode text) i j →
    Tells lower text (trigramInfo lower caps h) i j
  | .empty, i, j, hm => tells_ofExact (s := []) (m := []) (by simp [setEmpty]) hm rfl
  | .look _, i, j, hm => tells_ofExact (s := []) (m := []) (by simp [setEmpty]) hm.1 rfl
  | .literal bytes, i, j, hm => by
    rw [trigramInfo]
    split
    · rename_i s hs
      refine tells_ofExact (List.mem_singleton_self s) ?_ rfl
      exact fromUtf8_encode hs ▸ hm
    · exact tells_unconstrained
  | .class cls, i, j, ⟨bs, hacc, hat⟩ => by
    rw [trigramInfo]
    split
    · rename_i strings heq
      exact classExact_tells heq hacc hat
    · exact tells_unconstrained
  | .capture sub, i, j, hm => trigramInfo_tells sub i j hm
  | .repetition min max sub, i, j, ⟨hi, n, hmin, hmax, hn⟩ =>
    repetitionInfo_tells (fun a b => trigramInfo_tells sub a b) hi hmin hmax hn
  | .concat children, i, j, ⟨hi, hseq⟩ =>
    (concat_inv children i i j hi (ConcatState.init_inv hi) hseq).tells
  | .alternation children, i, j, hm =>
    let ⟨_, hmem, hinfo⟩ := alternation_branch children i j hm
    alternationInfo_tells hmem hinfo

/-- The invariant of a concatenation, over the children still to come. -/
lemma concat_inv : ∀ (hs : List Hir) {st : ConcatState} (i k j : ℕ), At (encode text) k [] k →
    ConcatInv lower text st i k → MatchesSeq look (encode text) hs k j →
    ConcatInv lower text ((trigramInfos lower caps hs).foldl (concatStep lower caps) st) i j
  | [], _, _, _, _, _, hinv, hm => hm ▸ hinv
  | h :: hs, _, i, k, j, _, hinv, ⟨k', hk, hrest⟩ =>
    have hend := Matches.at_end h k k' hk
    concat_inv hs i k' j hend (concatStep_inv hinv (trigramInfo_tells h k k' hk) hend) hrest

/-- A match of an alternation is a match of a branch, and what that branch tells is true. -/
lemma alternation_branch : ∀ (hs : List Hir) (i j : ℕ), MatchesAny look (encode text) hs i j →
    ∃ info ∈ trigramInfos lower caps hs, Tells lower text info i j
  | h :: _, i, j, .inl hm => ⟨_, List.mem_cons_self, trigramInfo_tells h i j hm⟩
  | _ :: hs, i, j, .inr hm =>
    let ⟨info, hmem, hinfo⟩ := alternation_branch hs i j hm
    ⟨info, List.mem_cons_of_mem _ hmem, hinfo⟩

end

/-- **Soundness of the trigram filter.** Whenever the planner returns clauses for a pattern, every
text in which the pattern's tree has a match contains all the trigrams of one of them. -/
theorem requiredTrigramClauses_sound (caps : Caps) (lower : Char → Str)
    (parse : Str → Option Hir) (look : Look → List UInt8 → ℕ → Prop) (pattern : Str)
    {text : Str} {hir : Hir} {i j : ℕ} {clauses : List (Finset Str)} (hparse : parse pattern = some hir)
    (hmatch : hir.Matches look (encode text) i j)
    (hclauses : requiredTrigramClauses lower caps parse pattern = some clauses) :
    ∃ clause ∈ clauses, clause ⊆ trigrams lower text := by
  have htells : Tells lower text (trigramInfo lower caps hir) i j :=
    trigramInfo_tells hir i j hmatch
  have hrequired : Satisfied ((trigramInfo lower caps hir).requirement lower caps)
      (trigrams lower text) := htells.requirement
  rw [requiredTrigramClauses, hparse] at hclauses
  exact hrequired clauses hclauses

/-- The tree of `(?i:a)bc`. -/
def exampleHir : Hir :=
  .concat [.class (.unicode [⟨'A', 'A', by decide⟩, ⟨'a', 'a', by decide⟩]),
    .class (.unicode [⟨'b', 'b', by decide⟩]), .class (.unicode [⟨'c', 'c', by decide⟩])]

/-- `(?i:a)bc` matches at the second character of `éAbc`. -/
lemma exampleHir_matches :
    exampleHir.Matches (fun _ _ _ => False) (encode ['é', 'A', 'b', 'c']) 2 5 := by
  refine ⟨⟨encode ['é'], encode ['A', 'b', 'c'], by decide, by decide, by decide⟩, 3, ?_, 4, ?_, 5,
    ?_, rfl⟩
  · exact ⟨encode ['A'], ⟨_, List.mem_cons_self, 'A', by decide, by decide, by decide⟩,
      encode ['é'], encode ['b', 'c'], by decide, by decide, by decide⟩
  · exact ⟨encode ['b'], ⟨_, List.mem_cons_self, 'b', by decide, by decide, by decide⟩,
      encode ['é', 'A'], encode ['c'], by decide, by decide, by decide⟩
  · exact ⟨encode ['c'], ⟨_, List.mem_cons_self, 'c', by decide, by decide, by decide⟩,
      encode ['é', 'A', 'b'], [], by decide, by decide, by decide⟩

theorem requiredTrigramClauses_sound_example :
    ∃ clause ∈ ([{['a', 'b', 'c']}] : List (Finset Str)),
      clause ⊆ trigrams (fun c => [c.toLower]) ['é', 'A', 'b', 'c'] :=
  requiredTrigramClauses_sound .source (fun c => [c.toLower]) (fun _ => some exampleHir)
    (fun _ _ _ => False) "(?i:a)bc".toList rfl exampleHir_matches (by decide)

end Regex
end NestWeaver
