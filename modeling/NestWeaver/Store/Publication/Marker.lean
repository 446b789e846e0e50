import NestWeaver.Framework.Numerals
import NestWeaver.Framework.Segments

/-!
# The marker of an index publication

The payload of the marker in `crates/nestweaver-store/src/index_publication.rs`: the pid of the writer, the time,
a reason, and a bounded list of notes that are being written, between colons on one line.

The paths of the notes are written as they are.  A path with a colon or a comma is read back as something else, but
it comes after the fields that decide whether the marker is abandoned, and leaves these alone
(`parseMarkerPayload_format`).
-/

set_option linter.all false

namespace NestWeaver
namespace Marker

open Strings Numerals

/-! ## Writing the payload -/

def maxMarkerNotePaths : ℕ := 20

def formatMarkerPayload (pid unixNanos : ℕ) (reason : Option (List Char)) : List Char :=
  match reason with
  | some reason => Nat.toDigits 10 pid ++ ':' :: (Nat.toDigits 10 unixNanos ++ ':' :: (reason ++ ['\n']))
  | none => Nat.toDigits 10 pid ++ ':' :: (Nat.toDigits 10 unixNanos ++ ['\n'])

/-- The flag of a list that was cut, and the paths. -/
def notePathsField (notePaths : List (List Char)) : List Char :=
  (notePaths.take maxMarkerNotePaths).foldl (fun field path => field ++ ',' :: path)
    (if maxMarkerNotePaths < notePaths.length then ['1'] else ['0'])

def formatMarkerPayloadWithNotePaths (pid unixNanos : ℕ) (reason : Option (List Char))
    (notePaths : List (List Char)) : List Char :=
  if notePaths = [] then formatMarkerPayload pid unixNanos reason
  else
    Nat.toDigits 10 pid ++ ':' :: (Nat.toDigits 10 unixNanos ++ ':' ::
      (reason.getD [] ++ ':' :: (notePathsField notePaths ++ ['\n'])))

/-! ## Reading it back -/

/-- What the payload says of the writer. -/
structure MarkerRecord where
  writerPid : Option ℤ
  establishedUnixNanos : Option ℕ
  reason : Option (List Char)
  notePaths : List (List Char)
  notePathsTruncated : Bool
  deriving DecidableEq, Repr

/-- `str::parse::<i32>`. -/
def parseI32 : List Char → Option ℤ
  | '-' :: digits => (readDigits (2 ^ 31 + 1) 10 digits).map fun n => -Int.ofNat n
  | s => (fromStrRadix (2 ^ 31) 10 s).map Int.ofNat

/-- `str::parse::<u128>`. -/
def parseU128 (s : List Char) : Option ℕ := fromStrRadix (2 ^ 128) 10 s

/-- `field.get(1..)`, which is nothing behind a character of several bytes. -/
def behindFlag : List Char → List Char
  | [] => []
  | c :: rest => if c.utf8Size = 1 then rest else []

def parseNotePathsField (field : List Char) : List (List Char) × Bool :=
  if field = [] then ([], false)
  else (((behindFlag field).splitOn ',').filter fun path => path ≠ [], ['1'].isPrefixOf field)

def parseMarkerPayload (contents : List Char) : MarkerRecord :=
  let fields := (trim contents).splitOn ':'
  let notes := ((fields[3]?).map fun field => parseNotePathsField (trim field)).getD ([], false)
  { writerPid := ((fields[0]?).bind fun field => parseI32 (trim field)).filter fun pid => 0 < pid
    establishedUnixNanos := (fields[1]?).bind fun field => parseU128 (trim field)
    reason := ((fields[2]?).map trim).filter fun reason => reason ≠ []
    notePaths := notes.1
    notePathsTruncated := notes.2 }

/-- A reason that is written as it is. -/
structure IsReason (reason : List Char) : Prop where
  ne_nil : reason ≠ []
  noColon : ':' ∉ reason
  trim_eq : trim reason = reason

/-- A path that the separators leave whole. -/
structure IsPlainPath (path : List Char) : Prop where
  ne_nil : path ≠ []
  noComma : ',' ∉ path
  noColon : ':' ∉ path
  trim_eq : trim path = path

variable {pid unixNanos : ℕ} {reason : Option (List Char)} {notePaths : List (List Char)}
  {front back : List Char}

/-! ## The fields of a payload -/

lemma isDigit_of_mem {c : Char} {n : ℕ} (h : c ∈ Nat.toDigits 10 n) : c.isDigit = true :=
  Nat.isDigit_of_mem_toDigits (by decide) (by decide) h

lemma isWhiteSpace_of_mem_digits {c : Char} {n : ℕ} (h : c ∈ Nat.toDigits 10 n) : isWhiteSpace c = false :=
  isWhiteSpace_of_isDigit (isDigit_of_mem h)

lemma colon_not_mem_digits (n : ℕ) : ':' ∉ Nat.toDigits 10 n :=
  fun h => absurd (isDigit_of_mem h) (by decide)

lemma trim_digits (n : ℕ) : trim (Nat.toDigits 10 n) = Nat.toDigits 10 n :=
  trim_eq_self Nat.toDigits_ne_nil (fun c hc => isWhiteSpace_of_mem_digits (List.mem_of_head? hc))
    (fun c hc => isWhiteSpace_of_mem_digits (List.mem_of_getLast? hc))

/-- A payload is trimmed behind a part that does not end in white space. -/
lemma trim_payload {middle last : List Char} (hne : last ≠ [])
    (hlast : ∀ c ∈ last.getLast?, isWhiteSpace c = false) (back : List Char) :
    trim (Nat.toDigits 10 pid ++ (middle ++ last) ++ back) =
      Nat.toDigits 10 pid ++ (middle ++ last) ++ back.rdropWhile isWhiteSpace := by
  obtain ⟨first, rest, hdigits⟩ := List.exists_cons_of_ne_nil (Nat.toDigits_ne_nil (b := 10) (n := pid))
  refine trim_append (by simp [hne]) (fun c hc => ?_) (fun c hc => ?_)
  · rw [hdigits, List.cons_append, List.head?_cons, Option.mem_some_iff] at hc
    refine isWhiteSpace_of_mem_digits (n := pid) ?_
    rw [hdigits, ← hc]
    exact List.mem_cons_self
  · have hsome : last.getLast?.isSome := by rwa [List.getLast?_isSome]
    rw [← List.append_assoc, List.getLast?_append, Option.or_of_isSome hsome] at hc
    exact hlast c hc

/-- The pid and the time are the first fields. -/
lemma splitOn_stamp (more : List Char) :
    (Nat.toDigits 10 pid ++ ':' :: (Nat.toDigits 10 unixNanos ++ ':' :: more)).splitOn ':' =
      Nat.toDigits 10 pid :: Nat.toDigits 10 unixNanos :: more.splitOn ':' := by
  rw [List.splitOn_append_cons_self_of_not_mem (colon_not_mem_digits pid),
    List.splitOn_append_cons_self_of_not_mem (colon_not_mem_digits unixNanos)]

/-- The flag of a list that was cut. -/
def flagOf (notePaths : List (List Char)) : Char := if maxMarkerNotePaths < notePaths.length then '1' else '0'

lemma isDigit_flagOf (notePaths : List (List Char)) : (flagOf notePaths).isDigit = true := by
  rw [flagOf]
  split_ifs <;> decide

lemma notePathsField_eq (notePaths : List (List Char)) :
    notePathsField notePaths =
      flagOf notePaths :: Segments.written ',' (notePaths.take maxMarkerNotePaths) := by
  have hfold : ∀ (paths : List (List Char)) (field : List Char),
      paths.foldl (fun field path => field ++ ',' :: path) field = field ++ Segments.written ',' paths := by
    intro paths
    induction paths with
    | nil => exact fun field => (List.append_nil field).symm
    | cons path paths ih =>
      intro field
      rw [List.foldl_cons, ih, Segments.written_cons, List.append_assoc, List.cons_append]
  rw [notePathsField, hfold, flagOf]
  split_ifs <;> rfl

lemma rdropWhile_lineFeed : ['\n'].rdropWhile isWhiteSpace = [] := by decide

lemma splitOn_format_none :
    (trim (formatMarkerPayload pid unixNanos none)).splitOn ':' =
      [Nat.toDigits 10 pid, Nat.toDigits 10 unixNanos] := by
  have hcontents : formatMarkerPayload pid unixNanos none =
      Nat.toDigits 10 pid ++ ([':'] ++ Nat.toDigits 10 unixNanos) ++ ['\n'] := by
    simp [formatMarkerPayload]
  rw [hcontents, trim_payload Nat.toDigits_ne_nil
      (fun c hc => isWhiteSpace_of_mem_digits (List.mem_of_getLast? hc)),
    rdropWhile_lineFeed, List.append_nil, List.singleton_append,
    List.splitOn_append_cons_self_of_not_mem (colon_not_mem_digits pid),
    List.splitOn_eq_singleton (colon_not_mem_digits unixNanos)]

lemma splitOn_format_some {r : List Char} (hreason : IsReason r) :
    (trim (formatMarkerPayload pid unixNanos (some r))).splitOn ':' =
      [Nat.toDigits 10 pid, Nat.toDigits 10 unixNanos, r] := by
  have hcontents : formatMarkerPayload pid unixNanos (some r) =
      Nat.toDigits 10 pid ++ ((':' :: (Nat.toDigits 10 unixNanos ++ [':'])) ++ r) ++ ['\n'] := by
    simp [formatMarkerPayload]
  rw [hcontents, trim_payload hreason.ne_nil (getLast?_of_trim_eq hreason.trim_eq), rdropWhile_lineFeed,
    List.append_nil, List.cons_append, List.append_assoc, List.singleton_append, splitOn_stamp,
    List.splitOn_eq_singleton hreason.noColon]

/-- What is left of the paths at the end of the payload. -/
def lastField (notePaths : List (List Char)) : List Char :=
  flagOf notePaths ::
    (Segments.written ',' (notePaths.take maxMarkerNotePaths) ++ ['\n']).rdropWhile isWhiteSpace

lemma splitOn_format_paths {r : List Char} (hcolon : ':' ∉ r) :
    (trim (Nat.toDigits 10 pid ++ ':' :: (Nat.toDigits 10 unixNanos ++ ':' ::
        (r ++ ':' :: (notePathsField notePaths ++ ['\n']))))).splitOn ':' =
      Nat.toDigits 10 pid :: Nat.toDigits 10 unixNanos :: r :: (lastField notePaths).splitOn ':' := by
  have hcontents : Nat.toDigits 10 pid ++ ':' :: (Nat.toDigits 10 unixNanos ++ ':' ::
      (r ++ ':' :: (notePathsField notePaths ++ ['\n']))) =
        Nat.toDigits 10 pid ++ ((':' :: (Nat.toDigits 10 unixNanos ++ ':' :: (r ++ [':']))) ++
          [flagOf notePaths]) ++ (Segments.written ',' (notePaths.take maxMarkerNotePaths) ++ ['\n']) := by
    rw [notePathsField_eq]
    simp
  have hflag : ∀ c ∈ [flagOf notePaths].getLast?, isWhiteSpace c = false := by
    intro c hc
    rw [List.getLast?_singleton, Option.mem_some_iff] at hc
    exact hc ▸ isWhiteSpace_of_isDigit (isDigit_flagOf notePaths)
  rw [hcontents, trim_payload (List.cons_ne_nil _ _) hflag]
  simp only [List.append_assoc, List.cons_append, List.nil_append]
  rw [splitOn_stamp, List.splitOn_append_cons_self_of_not_mem hcolon]
  rfl

/-- The fields behind the time. -/
def fieldsOf (reason : Option (List Char)) (notePaths : List (List Char)) : List (List Char) :=
  if notePaths = [] then reason.toList else reason.getD [] :: (lastField notePaths).splitOn ':'

/-- **The first fields are not disturbed**, whatever stands in the paths. -/
lemma splitOn_format (hreason : ∀ r ∈ reason, IsReason r) :
    (trim (formatMarkerPayloadWithNotePaths pid unixNanos reason notePaths)).splitOn ':' =
      Nat.toDigits 10 pid :: Nat.toDigits 10 unixNanos :: fieldsOf reason notePaths := by
  rw [formatMarkerPayloadWithNotePaths, fieldsOf]
  by_cases hpaths : notePaths = []
  · rw [if_pos hpaths, if_pos hpaths]
    cases reason with
    | none => exact splitOn_format_none
    | some r => exact splitOn_format_some (hreason r rfl)
  · rw [if_neg hpaths, if_neg hpaths]
    cases reason with
    | none => exact splitOn_format_paths List.not_mem_nil
    | some r => exact splitOn_format_paths (hreason r rfl).noColon

/-! ## Reading the fields -/

lemma parseI32_digits (hpid : pid < 2 ^ 31) : parseI32 (Nat.toDigits 10 pid) = some (pid : ℤ) := by
  unfold parseI32
  split
  · rename_i digits hdigits
    have hminus : ('-').isDigit = true := isDigit_of_mem (n := pid) (hdigits ▸ List.mem_cons_self)
    cases hminus
  · rw [fromStrRadix_toDigits hpid]
    rfl

/-- The reason is what it was, absent or not. -/
lemma filter_reason (hreason : ∀ r ∈ reason, IsReason r) :
    (((fieldsOf reason notePaths)[0]?).map trim).filter (fun reason => reason ≠ []) = reason := by
  rw [fieldsOf]
  cases reason with
  | none =>
    split_ifs
    · rfl
    · rfl
  | some r =>
    obtain ⟨hne, -, htrim⟩ := hreason r rfl
    have hfilter : (some (trim r)).filter (fun reason => reason ≠ []) = some r := by
      rw [htrim, Option.filter_some, if_pos (decide_eq_true hne)]
    split_ifs
    · exact hfilter
    · exact hfilter

/-- The written paths end as the last of them does. -/
lemma getLast?_written {paths : List (List Char)} (hne : paths ≠ [])
    (hplain : ∀ path ∈ paths, IsPlainPath path) :
    ∀ c ∈ (Segments.written ',' paths).getLast?, isWhiteSpace c = false := by
  obtain ⟨init, path, rfl⟩ := (List.eq_nil_or_concat' paths).resolve_left hne
  have hpath : IsPlainPath path := hplain path (List.mem_append_right _ List.mem_cons_self)
  have hwritten : Segments.written ',' (init ++ [path]) = Segments.written ',' init ++ ',' :: path := by
    simp [Segments.written]
  have hsome : path.getLast?.isSome := by
    rw [List.getLast?_isSome]
    exact hpath.ne_nil
  rw [hwritten, List.getLast?_append, List.getLast?_cons_of_ne_nil hpath.ne_nil, Option.or_of_isSome hsome]
  exact getLast?_of_trim_eq hpath.trim_eq

/-- Paths without separators are the last field as they are. -/
lemma lastField_of_plain (hpaths : notePaths ≠ []) (hplain : ∀ path ∈ notePaths, IsPlainPath path) :
    lastField notePaths =
        flagOf notePaths :: Segments.written ',' (notePaths.take maxMarkerNotePaths) ∧
      ':' ∉ lastField notePaths ∧ trim (lastField notePaths) = lastField notePaths := by
  set capped := notePaths.take maxMarkerNotePaths with hcapped
  have hcappedPlain : ∀ path ∈ capped, IsPlainPath path :=
    fun path hpath => hplain path (List.mem_of_mem_take hpath)
  have hne : capped ≠ [] := by
    rw [hcapped, Ne, List.take_eq_nil_iff, not_or]
    exact ⟨by decide, hpaths⟩
  have hlast := getLast?_written hne hcappedPlain
  have hfield : lastField notePaths = flagOf notePaths :: Segments.written ',' capped := by
    rw [lastField, ← hcapped, rdropWhile_append hlast, rdropWhile_lineFeed, List.append_nil]
  have hflag := isDigit_flagOf notePaths
  refine ⟨hfield, ?_, ?_⟩
  · rw [hfield, List.mem_cons, not_or]
    refine ⟨fun h => ?_, fun h => ?_⟩
    · rw [← h] at hflag
      cases hflag
    · obtain ⟨path, hpath, hc⟩ := List.mem_flatMap.mp h
      obtain hcomma | hc := List.mem_cons.mp hc
      · cases hcomma
      · exact (hcappedPlain path hpath).noColon hc
  · have hwritten : Segments.written ',' capped ≠ [] := by
      obtain ⟨path, paths, hcons⟩ := List.exists_cons_of_ne_nil hne
      rw [hcons, Segments.written_cons]
      exact List.cons_ne_nil _ _
    rw [hfield]
    refine trim_eq_self (List.cons_ne_nil _ _) (fun c hc => ?_) ?_
    · rw [List.head?_cons, Option.mem_some_iff] at hc
      exact hc ▸ isWhiteSpace_of_isDigit hflag
    · rw [List.getLast?_cons_of_ne_nil hwritten]
      exact hlast

/-- The paths are read back from their field. -/
lemma parseNotePathsField_plain (hplain : ∀ path ∈ notePaths, IsPlainPath path) :
    parseNotePathsField (flagOf notePaths :: Segments.written ',' (notePaths.take maxMarkerNotePaths)) =
      (notePaths.take maxMarkerNotePaths, decide (maxMarkerNotePaths < notePaths.length)) := by
  have hpaths : ∀ path ∈ notePaths.take maxMarkerNotePaths, IsPlainPath path :=
    fun path hpath => hplain path (List.mem_of_mem_take hpath)
  have hflag : (flagOf notePaths).utf8Size = 1 ∧
      ['1'].isPrefixOf (flagOf notePaths :: Segments.written ',' (notePaths.take maxMarkerNotePaths)) =
        decide (maxMarkerNotePaths < notePaths.length) := by
    rw [flagOf]
    split_ifs with hlong
    · exact ⟨by decide, by simp [hlong]⟩
    · exact ⟨by decide, by rw [decide_eq_false hlong]; rfl⟩
  have hfilter : (notePaths.take maxMarkerNotePaths).filter (fun path => path ≠ []) =
      notePaths.take maxMarkerNotePaths :=
    List.filter_eq_self.mpr fun path hpath => decide_eq_true (hpaths path hpath).ne_nil
  rw [parseNotePathsField, if_neg (List.cons_ne_nil _ _), hflag.2, behindFlag, if_pos hflag.1,
    Segments.splitOn_written fun path hpath => (hpaths path hpath).noComma,
    List.filter_cons_of_neg (by simp), hfilter]

/-- The field of the paths is the second behind the time, and there is none where there are no paths. -/
lemma notes_fieldsOf (hplain : ∀ path ∈ notePaths, IsPlainPath path) :
    (((fieldsOf reason notePaths)[1]?).map fun field => parseNotePathsField (trim field)).getD ([], false) =
      (notePaths.take maxMarkerNotePaths, decide (maxMarkerNotePaths < notePaths.length)) := by
  rw [fieldsOf]
  by_cases hpaths : notePaths = []
  · have hnone : (reason.toList)[1]? = none := by
      cases reason <;> rfl
    rw [if_pos hpaths, hnone, hpaths]
    rfl
  · obtain ⟨hfield, hcolon, htrim⟩ := lastField_of_plain hpaths hplain
    rw [if_neg hpaths, List.getElem?_cons_succ, List.splitOn_eq_singleton hcolon, List.getElem?_cons_zero,
      Option.map_some, Option.getD_some, htrim, hfield, parseNotePathsField_plain hplain]

/-- **The payload is read back.**  Pid, time and reason are what was written, whatever stands in the paths.  Paths
without a comma or a colon and without white space around them are read back up to the cap, with the flag set
exactly if there were more. -/
theorem parseMarkerPayload_format (pid unixNanos : ℕ) (reason : Option (List Char))
    (notePaths : List (List Char)) (hpid : 1 ≤ pid ∧ pid < 2 ^ 31) (hnanos : unixNanos < 2 ^ 128)
    (hreason : ∀ r ∈ reason, IsReason r) :
    let record := parseMarkerPayload (formatMarkerPayloadWithNotePaths pid unixNanos reason notePaths)
    record.writerPid = some (pid : ℤ) ∧ record.establishedUnixNanos = some unixNanos ∧
      record.reason = reason ∧
      ((∀ path ∈ notePaths, IsPlainPath path) →
        record.notePaths = notePaths.take maxMarkerNotePaths ∧
          (record.notePathsTruncated = true ↔ maxMarkerNotePaths < notePaths.length)) := by
  have hfields : (trim (formatMarkerPayloadWithNotePaths pid unixNanos reason notePaths)).splitOn ':' =
      Nat.toDigits 10 pid :: Nat.toDigits 10 unixNanos :: fieldsOf reason notePaths := splitOn_format hreason
  have hpositive : (0 : ℤ) < pid := by omega
  rw [parseMarkerPayload, hfields]
  refine ⟨?_, ?_, ?_, fun hplain => ?_⟩
  · simp only [List.getElem?_cons_zero, Option.bind_some, trim_digits]
    rw [parseI32_digits hpid.2, Option.filter_some, if_pos (decide_eq_true hpositive)]
  · simp only [List.getElem?_cons_succ, List.getElem?_cons_zero, Option.bind_some, trim_digits]
    exact fromStrRadix_toDigits hnanos
  · exact filter_reason hreason
  · simp only [List.getElem?_cons_succ]
    rw [notes_fieldsOf hplain]
    exact ⟨rfl, decide_eq_true_iff⟩

/-- A batch of two notes, and one of a note whose path looks like a field. -/
theorem parseMarkerPayload_format_batch :
    (parseMarkerPayload (formatMarkerPayloadWithNotePaths 4242 1755000000000000000
        (some "brain watcher batch".toList) ["a.md".toList, "b.md".toList])).notePaths =
      ["a.md".toList, "b.md".toList] ∧
      (parseMarkerPayload (formatMarkerPayloadWithNotePaths 4242 1755000000000000000 none
        [" :7,:cancelled ".toList])).writerPid = some 4242 := by
  have hreason : IsReason "brain watcher batch".toList := ⟨by decide, by decide, by decide⟩
  have hbatch := parseMarkerPayload_format 4242 1755000000000000000 (some "brain watcher batch".toList)
    ["a.md".toList, "b.md".toList] (by omega) (by omega) (fun r hr => Option.some.inj hr ▸ hreason)
  have hfield := parseMarkerPayload_format 4242 1755000000000000000 none [" :7,:cancelled ".toList] (by omega)
    (by omega) (fun r hr => by cases hr)
  refine ⟨(hbatch.2.2.2 ?_).1, hfield.1⟩
  intro path hpath
  simp only [List.mem_cons, List.not_mem_nil, or_false] at hpath
  obtain rfl | rfl := hpath
  · exact ⟨by decide, by decide, by decide, by decide⟩
  · exact ⟨by decide, by decide, by decide, by decide⟩

end Marker
end NestWeaver
