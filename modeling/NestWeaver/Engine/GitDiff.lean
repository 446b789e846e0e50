import Mathlib.Data.List.Forall2
import Mathlib.Data.List.Flatten
import NestWeaver.Framework.Utf8

/-!
# Changes listed by git

`crates/nestweaver-engine/src/git_diff.rs`: the output of `git diff --name-status -z` is cut at the NUL
bytes, and the tokens are read as statuses and paths.

A status that is not known consumes no path, so that its path is read as the next status, and a copy is
taken for a rename.  So a list of changes is decoded in step exactly if there are only additions,
modifications, deletions and renames in it (`decodes_iff`).  As long as no path of an unknown status begins
like a status that is known, no entry is lost (`parseDiffOutput_skipping`).
-/

set_option linter.all false

namespace NestWeaver
namespace GitDiff

open Utf8

/-! ## The code -/

inductive FileChange
  | added (path : String)
  | modified (path : String)
  | deleted (path : String)
  | renamed («from» «to» : String)
  deriving DecidableEq, Repr

def fromUtf8Lossy (bytes : List UInt8) : String := String.ofList (decodeLossy bytes)

def bytesToPathbuf (bytes : List UInt8) : String := fromUtf8Lossy bytes

/-- The passes of the loop over the tokens from an index on: the index of the token that is read as a
status, and the change that is pushed. -/
def readTokens : ℕ → List (List UInt8) → List (ℕ × Option FileChange)
  | _, [] => []
  | i, status :: rest =>
    match (fromUtf8Lossy status).toList.headD ' ', rest with
    | 'A', path :: rest => (i, some (.added (bytesToPathbuf path))) :: readTokens (i + 2) rest
    | 'M', path :: rest => (i, some (.modified (bytesToPathbuf path))) :: readTokens (i + 2) rest
    | 'D', path :: rest => (i, some (.deleted (bytesToPathbuf path))) :: readTokens (i + 2) rest
    | 'R', «from» :: «to» :: rest =>
      (i, some (.renamed (bytesToPathbuf «from») (bytesToPathbuf «to»))) :: readTokens (i + 3) rest
    | 'C', «from» :: «to» :: rest =>
      (i, some (.renamed (bytesToPathbuf «from») (bytesToPathbuf «to»))) :: readTokens (i + 3) rest
    | _, rest => (i, none) :: readTokens (i + 1) rest

/-- The empty token after the last terminator is dropped. -/
def tokensOf (output : List UInt8) : List (List UInt8) := (output.splitOn 0).filter (· ≠ [])

def parseDiffOutput (output : List UInt8) : List FileChange :=
  (readTokens 0 (tokensOf output)).filterMap Prod.snd

/-- The indices of the tokens that are read as statuses. -/
def statusPositions (output : List UInt8) : List ℕ := (readTokens 0 (tokensOf output)).map Prod.fst

/-! ## What git writes -/

/-- A path of a change. -/
abbrev Path := {s : String // s ≠ "" ∧ '\x00' ∉ s.toList}

/-- The similarity of two files, in digits. -/
abbrev Score := {s : String // ∀ c ∈ s.toList, c.isDigit}

/-- The codes with one path. -/
inductive Code
  | A | M | D | T | U | X | B
  deriving DecidableEq, Repr

inductive Record
  | one (code : Code) (path : Path)
  | rename (score : Score) («from» «to» : Path)
  | copy (score : Score) («from» «to» : Path)

def Code.letter : Code → Char
  | .A => 'A' | .M => 'M' | .D => 'D' | .T => 'T' | .U => 'U' | .X => 'X' | .B => 'B'

/-- The status and the paths. -/
def Record.texts : Record → List (List Char)
  | .one code path => [[code.letter], path.val.toList]
  | .rename score «from» «to» => ['R' :: score.val.toList, from.val.toList, «to».val.toList]
  | .copy score «from» «to» => ['C' :: score.val.toList, from.val.toList, «to».val.toList]

def Record.tokens (r : Record) : List (List UInt8) := r.texts.map Utf8.encode

/-- Every token is terminated by a NUL byte. -/
def encodeRecords (records : List Record) : List UInt8 :=
  (records.flatMap Record.tokens).flatMap (· ++ [0])

/-! ## Decoding in step -/

/-- The file that is said to be gone. -/
def FileChange.gone : FileChange → Option String
  | .added _ | .modified _ => none
  | .deleted path => some path
  | .renamed «from» _ => some «from»

/-- What is to be read of a record. -/
inductive Record.Decoded : Record → List FileChange → Prop
  | added (path : Path) : Decoded (.one .A path) [.added path]
  | modified (path : Path) : Decoded (.one .M path) [.modified path]
  | deleted (path : Path) : Decoded (.one .D path) [.deleted path]
  | renamed (score : Score) («from» «to» : Path) :
    Decoded (.rename score «from» «to») [.renamed «from» «to»]
  | other {code : Code} (hcode : code ≠ .A ∧ code ≠ .M ∧ code ≠ .D) (path : Path) :
    Decoded (.one code path) []
  /-- Anything but that the source is gone. -/
  | copied (score : Score) («from» «to» : Path) {changes : List FileChange}
    (hgone : ∀ change ∈ changes, change.gone ≠ some from.val) :
    Decoded (.copy score «from» «to») changes

/-- Where the statuses of the records are, from an index on. -/
def starts : ℕ → List Record → List ℕ
  | _, [] => []
  | i, r :: records => i :: starts (i + r.texts.length) records

/-- The records are decoded in order, each by itself, and their statuses are what is read as statuses. -/
structure Decodes (records : List Record) : Prop where
  entries : ∃ changes, List.Forall₂ Record.Decoded records changes ∧
    parseDiffOutput (encodeRecords records) = changes.flatten
  framed : statusPositions (encodeRecords records) = starts 0 records

/-- An addition, a modification, a deletion or a rename. -/
def Record.Known : Record → Prop
  | .one code _ => code = .A ∨ code = .M ∨ code = .D
  | .rename .. => True
  | .copy .. => False

/-! ## Tokens -/

section Tokens

variable {records : List Record} {r : Record}

lemma isDigit_ne_nul {c : Char} (h : c.isDigit) : c ≠ '\x00' := by
  rintro rfl
  exact absurd h (by decide)

lemma texts_ne_nil {text : List Char} (h : text ∈ r.texts) : text ≠ [] ∧ '\x00' ∉ text := by
  have hpath : ∀ path : Path, path.val.toList ≠ [] ∧ '\x00' ∉ path.val.toList := by
    rintro ⟨path, hne, hnul⟩
    exact ⟨by simpa using hne, hnul⟩
  have hscore : ∀ (c : Char) (score : Score), c ≠ '\x00' → '\x00' ∉ c :: score.val.toList := by
    intro c score hc hmem
    obtain heq | hmem := List.mem_cons.mp hmem
    · exact hc heq.symm
    · exact isDigit_ne_nul (score.property _ hmem) rfl
  cases r with
  | one code path =>
    obtain rfl | rfl : text = [code.letter] ∨ text = path.val.toList := by simpa [Record.texts] using h
    · cases code <;> simp [Code.letter]
    · exact hpath path
  | rename score source «to» =>
    obtain rfl | rfl | rfl : text = 'R' :: score.val.toList ∨ text = source.val.toList ∨
      text = «to».val.toList := by simpa [Record.texts] using h
    · exact ⟨List.cons_ne_nil _ _, hscore 'R' score (by decide)⟩
    · exact hpath source
    · exact hpath «to»
  | copy score source «to» =>
    obtain rfl | rfl | rfl : text = 'C' :: score.val.toList ∨ text = source.val.toList ∨
      text = «to».val.toList := by simpa [Record.texts] using h
    · exact ⟨List.cons_ne_nil _ _, hscore 'C' score (by decide)⟩
    · exact hpath source
    · exact hpath «to»

lemma tokens_spec {token : List UInt8} (h : token ∈ records.flatMap Record.tokens) :
    token ≠ [] ∧ 0 ∉ token := by
  obtain ⟨r, -, hr⟩ := List.mem_flatMap.mp h
  obtain ⟨text, htext, rfl⟩ := List.mem_map.mp hr
  obtain ⟨hne, hnul⟩ := texts_ne_nil htext
  refine ⟨fun hnil => ?_, fun hzero => hnul (mem_of_ascii_mem_encode (by decide) hzero)⟩
  obtain ⟨c, text, rfl⟩ := List.exists_cons_of_ne_nil hne
  rw [encode_cons, List.append_eq_nil_iff] at hnil
  exact String.utf8EncodeChar_ne_nil hnil.1

/-- The tokens are what stands between the terminators. -/
lemma tokensOf_encodeRecords (records : List Record) :
    tokensOf (encodeRecords records) = records.flatMap Record.tokens := by
  have hsplit : ∀ tokens : List (List UInt8), (∀ token ∈ tokens, token ≠ [] ∧ 0 ∉ token) →
      tokensOf (tokens.flatMap (· ++ [0])) = tokens := by
    intro tokens htokens
    induction tokens with
    | nil => rfl
    | cons token tokens ih =>
      obtain ⟨hne, hzero⟩ := htokens token List.mem_cons_self
      have hfirst : (token ++ 0 :: tokens.flatMap (· ++ [0])).splitOn 0 =
          token :: (tokens.flatMap (· ++ [0])).splitOn 0 := by
        rw [List.splitOn_eq_splitOnP, List.splitOn_eq_splitOnP]
        refine List.splitOnP_append_cons_of_forall_mem (fun b hb => ?_) 0 (by rfl) _
        exact beq_eq_false_iff_ne.mpr fun heq => hzero (heq ▸ hb)
      rw [List.flatMap_cons, List.append_assoc, List.singleton_append, tokensOf, hfirst,
        List.filter_cons_of_pos (by simpa using hne)]
      exact congrArg _ (ih fun token' h => htokens token' (List.mem_cons_of_mem _ h))
  exact hsplit _ fun token h => tokens_spec h

lemma bytesToPathbuf_encode (path : Path) : bytesToPathbuf (Utf8.encode path.val.toList) = path.val := by
  rw [bytesToPathbuf, fromUtf8Lossy, decodeLossy_encode, String.ofList_toList]

lemma headD_encode (text : List Char) :
    (fromUtf8Lossy (Utf8.encode text)).toList.headD ' ' = text.headD ' ' := by
  rw [fromUtf8Lossy, decodeLossy_encode, String.toList_ofList]

end Tokens

/-! ## Passes of the loop -/

/-- The letters that a status is known by. -/
def knownLetters : List Char := ['A', 'M', 'D', 'R', 'C']

section Passes

variable {i : ℕ} {status path path' : List UInt8} {rest : List (List UInt8)}

lemma readTokens_other (h : (fromUtf8Lossy status).toList.headD ' ' ∉ knownLetters) :
    readTokens i (status :: rest) = (i, none) :: readTokens (i + 1) rest := by
  simp only [knownLetters, List.mem_cons, List.not_mem_nil, or_false, not_or] at h
  obtain ⟨hA, hM, hD, hR, hC⟩ := h
  conv_lhs => unfold readTokens
  split
  · exact absurd ‹_› hA
  · exact absurd ‹_› hM
  · exact absurd ‹_› hD
  · exact absurd ‹_› hR
  · exact absurd ‹_› hC
  · rfl

/-- What one pass reads of a record that begins a list of tokens. -/
def Record.read : Record → Option FileChange
  | .one .A path => some (.added path)
  | .one .M path => some (.modified path)
  | .one .D path => some (.deleted path)
  | .one _ _ => none
  | .rename _ source target => some (.renamed source target)
  | .copy _ source target => some (.renamed source target)

/-- Of a record with an unknown code the status only. -/
def Record.skipped : Record → Bool
  | .one .A _ | .one .M _ | .one .D _ | .rename .. | .copy .. => false
  | .one _ _ => true

lemma readTokens_record {r : Record} (h : r.skipped = false) :
    readTokens i (r.tokens ++ rest) = (i, r.read) :: readTokens (i + r.texts.length) rest := by
  have hletter : ∀ c, (fromUtf8Lossy (Utf8.encode [c])).toList.headD ' ' = c := fun c => headD_encode [c]
  have hscore : ∀ (c : Char) (score : Score),
      (fromUtf8Lossy (Utf8.encode (c :: score.val.toList))).toList.headD ' ' = c :=
    fun c score => headD_encode _
  cases r with
  | one code path =>
    cases code with
    | A =>
      simp only [Record.tokens, Record.texts, Code.letter, List.map_cons, List.map_nil,
        List.cons_append, List.nil_append, Record.read]
      conv_lhs => unfold readTokens
      simp only [hletter, bytesToPathbuf_encode]
      rfl
    | M =>
      simp only [Record.tokens, Record.texts, Code.letter, List.map_cons, List.map_nil,
        List.cons_append, List.nil_append, Record.read]
      conv_lhs => unfold readTokens
      simp only [hletter, bytesToPathbuf_encode]
      rfl
    | D =>
      simp only [Record.tokens, Record.texts, Code.letter, List.map_cons, List.map_nil,
        List.cons_append, List.nil_append, Record.read]
      conv_lhs => unfold readTokens
      simp only [hletter, bytesToPathbuf_encode]
      rfl
    | T => cases h
    | U => cases h
    | X => cases h
    | B => cases h
  | rename score source target =>
    simp only [Record.tokens, Record.texts, List.map_cons, List.map_nil,
      List.cons_append, List.nil_append, Record.read]
    conv_lhs => unfold readTokens
    simp only [hscore, bytesToPathbuf_encode]
    rfl
  | copy score source target =>
    simp only [Record.tokens, Record.texts, List.map_cons, List.map_nil,
      List.cons_append, List.nil_append, Record.read]
    conv_lhs => unfold readTokens
    simp only [hscore, bytesToPathbuf_encode]
    rfl

lemma exists_of_skipped {r : Record} (h : r.skipped = true) :
    ∃ code path, r = .one code path ∧ code.letter ∉ knownLetters ∧
      code ≠ .A ∧ code ≠ .M ∧ code ≠ .D := by
  cases r with
  | one code path =>
    refine ⟨code, path, rfl, ?_⟩
    cases code with
    | A => cases h
    | M => cases h
    | D => cases h
    | T => decide
    | U => decide
    | X => decide
    | B => decide
  | rename score source target => cases h
  | copy score source target => cases h

lemma readTokens_skipped {code : Code} {p : Path} (hletter : code.letter ∉ knownLetters) :
    readTokens i ((Record.one code p).tokens ++ rest) =
      (i, none) :: readTokens (i + 1) (Utf8.encode p.val.toList :: rest) := by
  have hhead : (fromUtf8Lossy (Utf8.encode [code.letter])).toList.headD ' ' ∉ knownLetters := by
    rw [headD_encode]
    exact hletter
  exact readTokens_other hhead

/-- A path that is read as a status, and is not like one. -/
lemma readTokens_path {p : Path} (hpath : p.val.toList.headD ' ' ∉ knownLetters) :
    readTokens i (Utf8.encode p.val.toList :: rest) = (i, none) :: readTokens (i + 1) rest := by
  refine readTokens_other ?_
  rw [headD_encode]
  exact hpath

end Passes
/-! ## Lists of records -/

section Records

variable {i : ℕ} {records : List Record}

lemma readTokens_cons (i : ℕ) (token : List UInt8) (rest : List (List UInt8)) :
    ∃ change tail, readTokens i (token :: rest) = (i, change) :: tail := by
  unfold readTokens
  split <;> exact ⟨_, _, rfl⟩

/-- The pass after one that has skipped a path is not at the status of a record. -/
lemma not_skipped_of_framed
    (h : (readTokens i (records.flatMap Record.tokens)).map Prod.fst = starts i records) :
    ∀ r ∈ records, r.skipped = false := by
  induction records generalizing i with
  | nil =>
    intro r hr
    cases hr
  | cons r records ih =>
    rw [List.flatMap_cons] at h
    have hr : r.skipped = false := by
      by_contra hskipped
      obtain ⟨code, path, rfl, hletter, -⟩ := exists_of_skipped (by simpa using hskipped)
      rw [readTokens_skipped hletter] at h
      obtain ⟨change, tail, hcons⟩ :=
        readTokens_cons (i + 1) (Utf8.encode path.val.toList) (records.flatMap Record.tokens)
      rw [hcons] at h
      cases records with
      | nil => simp [starts] at h
      | cons r' records => simp [starts, Record.texts] at h
    rw [readTokens_record hr, List.map_cons, starts, List.cons.injEq] at h
    intro r' hr'
    obtain rfl | hr' := List.mem_cons.mp hr'
    · exact hr
    · exact ih h.2 r' hr'

lemma map_fst_readTokens (h : ∀ r ∈ records, r.skipped = false) :
    (readTokens i (records.flatMap Record.tokens)).map Prod.fst = starts i records := by
  induction records generalizing i with
  | nil => rfl
  | cons r records ih =>
    rw [List.flatMap_cons, readTokens_record (h r List.mem_cons_self), List.map_cons, starts,
      ih fun r' hr' => h r' (List.mem_cons_of_mem _ hr')]

lemma read_of_skipped {code : Code} {path : Path} (hcode : code ≠ .A ∧ code ≠ .M ∧ code ≠ .D) :
    (Record.one code path).read = none := by
  cases code <;> simp_all [Record.read]

/-- As long as no path is taken for a status, every record gives what is read of it. -/
lemma filterMap_readTokens
    (h : ∀ code path, .one code path ∈ records → (Record.one code path).skipped = true →
      path.val.toList.headD ' ' ∉ knownLetters) :
    (readTokens i (records.flatMap Record.tokens)).filterMap Prod.snd =
      records.filterMap Record.read := by
  induction records generalizing i with
  | nil => rfl
  | cons r records ih =>
    have ih := fun i => ih (i := i) fun code path hmem => h code path (List.mem_cons_of_mem _ hmem)
    rw [List.flatMap_cons]
    cases hr : r.skipped with
    | false =>
      rw [readTokens_record hr, List.filterMap_cons, List.filterMap_cons, ih]
    | true =>
      obtain ⟨code, path, rfl, hletter, hcode⟩ := exists_of_skipped hr
      rw [readTokens_skipped hletter, readTokens_path (h code path List.mem_cons_self hr),
        List.filterMap_cons, List.filterMap_cons, List.filterMap_cons, ih, read_of_skipped hcode]

lemma parseDiffOutput_of_not_skipped (h : ∀ r ∈ records, r.skipped = false) :
    parseDiffOutput (encodeRecords records) = records.filterMap Record.read := by
  rw [parseDiffOutput, tokensOf_encodeRecords, filterMap_readTokens]
  intro code path hmem hskipped
  rw [h _ hmem] at hskipped
  cases hskipped

lemma Record.Known.not_skipped {r : Record} (h : r.Known) : r.skipped = false := by
  cases r with
  | one code path => obtain rfl | rfl | rfl := h <;> rfl
  | rename score source target => rfl
  | copy score source target => cases h

lemma Record.Known.decoded {r : Record} (h : r.Known) : r.Decoded r.read.toList := by
  cases r with
  | one code path =>
    obtain rfl | rfl | rfl := h
    · exact .added path
    · exact .modified path
    · exact .deleted path
  | rename score source target => exact .renamed score source target
  | copy score source target => cases h

/-- What is read is as long as the list of records, and a copy would have to give something else than what
is read of it: the records before it cannot make up for that. -/
lemma known_of_flatten {changes : List (List FileChange)}
    (hdecoded : List.Forall₂ Record.Decoded records changes) (h : ∀ r ∈ records, r.skipped = false)
    (ahead : List FileChange) (heq : changes.flatten = ahead ++ records.filterMap Record.read) :
    ahead = [] ∧ ∀ r ∈ records, r.Known := by
  induction hdecoded generalizing ahead with
  | nil => simpa using heq
  | @cons r change records changes hr _ ih =>
    have ih := ih fun r' hr' => h r' (List.mem_cons_of_mem _ hr')
    have hskipped := h r List.mem_cons_self
    rw [List.flatten_cons] at heq
    have hcons : ∀ entry, r.read = some entry → change = [entry] → r.Known →
        ahead = [] ∧ ∀ r' ∈ r :: records, r'.Known := by
      rintro entry hread rfl hknown
      rw [List.filterMap_cons_some hread] at heq
      cases ahead with
      | nil =>
        rw [List.nil_append, List.singleton_append, List.cons.injEq] at heq
        obtain ⟨-, hrest⟩ := ih [] heq.2
        exact ⟨rfl, List.forall_mem_cons.mpr ⟨hknown, hrest⟩⟩
      | cons x ahead =>
        rw [List.singleton_append, List.cons_append, List.cons.injEq] at heq
        have heq := heq.2.trans (List.append_cons ahead entry _)
        exact absurd (ih _ heq).1 (by simp)
    cases hr with
    | added path => exact hcons _ rfl rfl (.inl rfl)
    | modified path => exact hcons _ rfl rfl (.inr (.inl rfl))
    | deleted path => exact hcons _ rfl rfl (.inr (.inr rfl))
    | renamed score source target => exact hcons _ rfl rfl True.intro
    | @other code hcode path =>
      cases code with
      | A => exact absurd rfl hcode.1
      | M => exact absurd rfl hcode.2.1
      | D => exact absurd rfl hcode.2.2
      | T => cases hskipped
      | U => cases hskipped
      | X => cases hskipped
      | B => cases hskipped
    | copied score source target hgone =>
      -- the rename that is read is not in the entries of the copy, so it comes too late
      have hread : (Record.copy score source target).read = some (.renamed source target) := rfl
      rw [List.filterMap_cons_some hread, List.append_eq_append_iff] at heq
      obtain ⟨later, hahead, hrest⟩ | ⟨later, hchange, hrest⟩ := heq
      · have hrest := hrest.trans (List.append_cons later (FileChange.renamed source target) _)
        exact absurd (ih _ hrest).1 (by simp)
      · cases later with
        | nil =>
          have hrest : changes.flatten = [FileChange.renamed source target] ++ _ := hrest.symm
          exact absurd (ih _ hrest).1 (by simp)
        | cons x later =>
          rw [List.cons_append, List.cons.injEq] at hrest
          refine absurd rfl (hgone (.renamed source target) ?_)
          rw [hchange, ← hrest.1]
          exact List.mem_append_right _ List.mem_cons_self

end Records

/-! ## The main results -/

/-- **When changes are decoded in step.**  Exactly when all of them are additions, modifications, deletions
and renames. -/
theorem decodes_iff (records : List Record) : Decodes records ↔ ∀ r ∈ records, r.Known := by
  constructor
  · rintro ⟨⟨changes, hdecoded, heq⟩, hframed⟩
    rw [statusPositions, tokensOf_encodeRecords] at hframed
    have hskipped := not_skipped_of_framed hframed
    rw [parseDiffOutput_of_not_skipped hskipped] at heq
    exact (known_of_flatten hdecoded hskipped [] heq.symm).2
  · intro h
    have hskipped : ∀ r ∈ records, r.skipped = false := fun r hr => (h r hr).not_skipped
    refine ⟨⟨records.map fun r => r.read.toList, ?_, ?_⟩, ?_⟩
    · rw [List.forall₂_map_right_iff, List.forall₂_same]
      exact fun r hr => (h r hr).decoded
    · rw [parseDiffOutput_of_not_skipped hskipped, ← List.flatMap_def, List.filterMap_eq_flatMap_toList]
    · rw [statusPositions, tokensOf_encodeRecords]
      exact map_fst_readTokens hskipped

/-- A change of the type of a file, and a modification. -/
def typeChanged : List Record := [.one .T ⟨"A.txt", by decide⟩, .one .M ⟨"src/lib.rs", by decide⟩]

/-- **A path is read as a status.**  The status of the modification is read as a path that was added. -/
theorem typeChanged_out_of_step :
    parseDiffOutput (encodeRecords typeChanged) = [.added "M"] ∧ ¬Decodes typeChanged := by
  refine ⟨by decide +kernel, ?_⟩
  rintro ⟨-, hframed⟩
  rw [statusPositions, tokensOf_encodeRecords] at hframed
  have hskipped := not_skipped_of_framed hframed (.one .T ⟨"A.txt", by decide⟩) List.mem_cons_self
  cases hskipped

/-- **Unknown codes that do no harm.**  As long as no path of an unknown status begins like a known one,
every other record gives its entry. -/
theorem parseDiffOutput_skipping {records : List Record}
    (h : ∀ code path, .one code path ∈ records → (Record.one code path).skipped = true →
      path.val.toList.headD ' ' ∉ knownLetters) :
    parseDiffOutput (encodeRecords records) = records.filterMap Record.read := by
  rw [parseDiffOutput, tokensOf_encodeRecords, filterMap_readTokens h]

end GitDiff
end NestWeaver
