import Mathlib.Data.List.Basic
import NestWeaver.Framework.Strings
import NestWeaver.Framework.WorkLoop

/-!
# Frames on standard input

`crates/nestweaver-mcp/src/session.rs`: one frame is read up to a line feed or the end of the input, at most
the limit of it is kept, and a longer one is reported with its length.

What is read depends on the bytes alone, not on the chunks in which they come: the frames are the lines of
the stream (`readFrames_lines`).  Lengths are counted up to the greatest `usize`.
-/

set_option linter.all false

namespace NestWeaver
namespace Frames

open WorkLoop

/-! ## The code -/

def usizeMax : ℕ := 18446744073709551615

/-- What `fill_buf` finds: bytes that are not consumed yet, an interrupted read or one that fails. -/
inductive Fill
  | available (byte : UInt8) (rest : List UInt8)
  | interrupted
  | failed
  deriving DecidableEq, Repr

/-- What the reader is to give.  At the end there is nothing available. -/
abbrev Reader := List Fill

inductive FrameRead
  | line (bytes : List UInt8)
  | oversized (length : ℕ)
  deriving DecidableEq, Repr

def lineFeed : UInt8 := 10

def carriageReturn : UInt8 := 13

/-- The variables of the loop. -/
structure Partial where
  line : List UInt8
  length : ℕ
  oversized : Bool
  deriving DecidableEq, Repr

def Partial.start : Partial := ⟨[], 0, false⟩

def Partial.extend (maxBytes : ℕ) (p : Partial) (chunk : List UInt8) : Partial :=
  let length := min (p.length + chunk.length) usizeMax
  if p.oversized then { p with length }
  else if maxBytes < length then ⟨[], length, true⟩
  else ⟨p.line ++ chunk, length, false⟩

def Partial.finish (p : Partial) : FrameRead :=
  if p.oversized then .oversized p.length
  else if p.line.getLast? = some carriageReturn then .line p.line.dropLast
  else .line p.line

/-- Some of the available bytes are consumed. -/
def consume (n : ℕ) (available : List UInt8) (rest : Reader) : Reader :=
  match available.drop n with
  | [] => rest
  | byte :: bytes => .available byte bytes :: rest

inductive ReadError
  | failed
  deriving DecidableEq, Repr

def readFrom (maxBytes : ℕ) : Partial → Reader → Except ReadError (Option FrameRead) × Reader
  | p, [] => (.ok (if p.length = 0 then none else some p.finish), [])
  | p, .interrupted :: reader => readFrom maxBytes p reader
  | _, .failed :: reader => (.error .failed, reader)
  | p, .available byte rest :: reader =>
    let available := byte :: rest
    match available.findIdx? (· = lineFeed) with
    | some index =>
      let chunk := available.take index
      (.ok (some (p.extend maxBytes chunk).finish), consume (chunk.length + 1) available reader)
    | none => readFrom maxBytes (p.extend maxBytes available) reader

def readFrame (maxBytes : ℕ) (reader : Reader) : Except ReadError (Option FrameRead) × Reader :=
  readFrom maxBytes .start reader

/-- One call, as long as there are frames. -/
def framesStep (maxBytes : ℕ) (s : List FrameRead × Reader) :
    List FrameRead × Reader ⊕ Except ReadError (List FrameRead) :=
  match readFrame maxBytes s.2 with
  | (.ok (some frame), reader) => .inl (s.1 ++ [frame], reader)
  | (.ok none, _) => .inr (.ok s.1)
  | (.error e, _) => .inr (.error e)

def readFrames (maxBytes fuel : ℕ) (reader : Reader) : Option (Except ReadError (List FrameRead)) :=
  runLoop (framesStep maxBytes) fuel ([], reader)

/-! ## The lines of a stream -/

def Fill.bytes : Fill → List UInt8
  | .available byte rest => byte :: rest
  | .interrupted | .failed => []

/-- The bytes that come. -/
def stream (reader : Reader) : List UInt8 := reader.flatMap Fill.bytes

/-- The pieces between line feeds, without an empty one at the end. -/
def lines (bytes : List UInt8) : List (List UInt8) :=
  let pieces := bytes.splitOn lineFeed
  if pieces.getLast? = some [] then pieces.dropLast else pieces

/-- What is to be reported of a line. -/
def frameOf (maxBytes : ℕ) (line : List UInt8) : FrameRead :=
  if min line.length usizeMax ≤ maxBytes then
    .line (if line.getLast? = some carriageReturn then line.dropLast else line)
  else .oversized (min line.length usizeMax)

lemma splitOn_append {line rest : List UInt8} (h : lineFeed ∉ line) :
    (line ++ lineFeed :: rest).splitOn lineFeed = line :: rest.splitOn lineFeed := by
  rw [List.splitOn_eq_splitOnP, List.splitOn_eq_splitOnP]
  refine List.splitOnP_append_cons_of_forall_mem (fun b hb => ?_) lineFeed (by rfl) rest
  exact beq_eq_false_iff_ne.mpr fun heq => h (heq ▸ hb)

lemma splitOn_of_notMem {line : List UInt8} (h : lineFeed ∉ line) : line.splitOn lineFeed = [line] := by
  rw [List.splitOn_eq_splitOnP]
  exact List.splitOnP_eq_singleton fun b hb => beq_eq_false_iff_ne.mpr fun heq => h (heq ▸ hb)

lemma lines_nil : lines [] = [] := rfl

lemma lines_append {line rest : List UInt8} (h : lineFeed ∉ line) :
    lines (line ++ lineFeed :: rest) = line :: lines rest := by
  have hne : rest.splitOn lineFeed ≠ [] := by
    rw [List.splitOn_eq_splitOnP]
    exact List.splitOnP_ne_nil _ _
  obtain ⟨piece, pieces, hpieces⟩ := List.exists_cons_of_ne_nil hne
  rw [lines, lines, splitOn_append h, hpieces]
  simp only [List.getLast?_cons_cons, List.dropLast_cons_cons]
  split_ifs <;> rfl

lemma lines_of_notMem {line : List UInt8} (h : lineFeed ∉ line) (hne : line ≠ []) :
    lines line = [line] := by
  rw [lines, splitOn_of_notMem h]
  simp [hne]

/-! ## One frame -/

/-- The variables when these bytes of the line have been read. -/
def Partial.of (maxBytes : ℕ) (line : List UInt8) : Partial where
  line := if maxBytes < min line.length usizeMax then [] else line
  length := min line.length usizeMax
  oversized := maxBytes < min line.length usizeMax

variable {maxBytes : ℕ} {line rest chunk : List UInt8} {reader : Reader}

lemma start_eq : Partial.start = .of maxBytes [] := by
  simp [Partial.start, Partial.of]

/-- **A chunk more.** -/
lemma extend_of (maxBytes : ℕ) (line chunk : List UInt8) :
    (Partial.of maxBytes line).extend maxBytes chunk = .of maxBytes (line ++ chunk) := by
  have hlength : min (min line.length usizeMax + chunk.length) usizeMax =
      min (line ++ chunk).length usizeMax := by
    rw [List.length_append]
    omega
  by_cases hover : maxBytes < min line.length usizeMax
  · have hover' : maxBytes < min (line ++ chunk).length usizeMax := by
      rw [List.length_append]
      omega
    simp only [Partial.of, Partial.extend, hover, hover', decide_true, if_true, hlength]
  · simp only [Partial.of, Partial.extend, hover, hlength, decide_false, Bool.false_eq_true, if_false]
    by_cases hover' : maxBytes < min (line ++ chunk).length usizeMax
    · simp only [hover', decide_true, if_true]
    · simp only [hover', decide_false, if_false]

lemma finish_of : (Partial.of maxBytes line).finish = frameOf maxBytes line := by
  by_cases hover : maxBytes < min line.length usizeMax
  · simp only [Partial.finish, Partial.of, frameOf, hover, decide_true, if_true, if_neg (not_le.mpr hover)]
  · simp only [Partial.finish, Partial.of, frameOf, hover, decide_false, Bool.false_eq_true, if_false,
      if_pos (not_lt.mp hover)]
    split_ifs <;> rfl

lemma length_of_eq_zero : (Partial.of maxBytes line).length = 0 ↔ line = [] := by
  rw [← List.length_eq_zero_iff]
  change min line.length usizeMax = 0 ↔ _
  have hpos : usizeMax ≠ 0 := by decide
  omega

lemma stream_consume (n : ℕ) (available : List UInt8) (reader : Reader) :
    stream (consume n available reader) = available.drop n ++ stream reader := by
  unfold consume
  split
  · rename_i h
    rw [h, List.nil_append]
  · rename_i byte bytes h
    rw [h]
    rfl

lemma notMem_consume {n : ℕ} {available : List UInt8} (h : Fill.failed ∉ reader) :
    Fill.failed ∉ consume n available reader := by
  unfold consume
  split
  · exact h
  · simpa using h

/-- The first line feed. -/
lemma findIdx?_lineFeed {available : List UInt8} {index : ℕ}
    (h : available.findIdx? (· = lineFeed) = some index) :
    lineFeed ∉ available.take index ∧
      available = available.take index ++ lineFeed :: available.drop (index + 1) ∧
      (available.take index).length = index := by
  obtain ⟨hlt, hfeed, hbefore⟩ := List.findIdx?_eq_some_iff_getElem.mp h
  refine ⟨fun hmem => ?_, ?_, by simp [hlt.le]⟩
  · obtain ⟨j, hj, heq⟩ := List.mem_take_iff_getElem.mp hmem
    exact hbefore j (by omega) (by simpa using heq)
  · have hfeed : available[index] = lineFeed := by simpa using hfeed
    rw [← hfeed, List.getElem_cons_drop, List.take_append_drop]

/-- **One frame.**  Up to the first line feed, or all of the stream if there is none. -/
lemma readFrom_of (maxBytes : ℕ) (hfailed : Fill.failed ∉ reader) (line : List UInt8) :
    (∀ front back, lineFeed ∉ front → stream reader = front ++ lineFeed :: back →
      ∃ reader' : Reader, readFrom maxBytes (.of maxBytes line) reader =
          (.ok (some (frameOf maxBytes (line ++ front))), reader') ∧
        stream reader' = back ∧ Fill.failed ∉ reader') ∧
    (lineFeed ∉ stream reader → readFrom maxBytes (.of maxBytes line) reader =
      (.ok (if line ++ stream reader = [] then none
        else some (frameOf maxBytes (line ++ stream reader))), [])) := by
  induction reader generalizing line with
  | nil =>
    refine ⟨fun front back _ h => ?_, fun _ => ?_⟩
    · exact absurd h (by simp [stream])
    · have hnil : stream [] = [] := rfl
      simp only [readFrom, length_of_eq_zero, finish_of, hnil, List.append_nil]
  | cons fill reader ih =>
    have hrest : Fill.failed ∉ reader := fun h => hfailed (List.mem_cons_of_mem _ h)
    have hbytes : stream (fill :: reader) = fill.bytes ++ stream reader := rfl
    cases fill with
    | interrupted => exact ih hrest line
    | failed => exact absurd List.mem_cons_self hfailed
    | available byte bytes =>
      rw [hbytes, Fill.bytes]
      cases hfind : (byte :: bytes).findIdx? (· = lineFeed) with
      | some index =>
        obtain ⟨hnot, hsplit, hlength⟩ := findIdx?_lineFeed hfind
        refine ⟨fun front back hfront h => ?_, fun h => ?_⟩
        · rw [hsplit, List.append_assoc] at h
          have hcut := congrArg (Strings.splitOnce [lineFeed]) h
          rw [List.cons_append, Strings.splitOnce_singleton hnot, Strings.splitOnce_singleton hfront] at hcut
          obtain ⟨hsame, hback⟩ := Prod.mk.inj (Option.some.inj hcut)
          refine ⟨consume (((byte :: bytes).take index).length + 1) (byte :: bytes) reader, ?_, ?_,
            notMem_consume hrest⟩
          · simp only [readFrom, hfind, extend_of, finish_of, hsame]
          · rw [stream_consume, hlength]
            exact hback
        · rw [hsplit] at h
          exact absurd (by simp) h
      | none =>
        have hnot : lineFeed ∉ byte :: bytes := by
          intro hmem
          have := List.findIdx?_eq_none_iff.mp hfind lineFeed hmem
          simp at this
        obtain ⟨hframe, hend⟩ := ih hrest (line ++ byte :: bytes)
        have hstep : readFrom maxBytes (.of maxBytes line) (.available byte bytes :: reader) =
            readFrom maxBytes (.of maxBytes (line ++ byte :: bytes)) reader := by
          simp only [readFrom, hfind, extend_of]
        rw [hstep]
        refine ⟨fun front back hfront h => ?_, fun h => ?_⟩
        · -- the line goes on behind the chunk
          rw [List.append_eq_append_iff] at h
          obtain ⟨more, rfl, hmore⟩ | ⟨more, hchunk, hmore⟩ := h
          · have hnotMore : lineFeed ∉ more := fun hm => hfront (List.mem_append_right _ hm)
            rw [← List.append_assoc]
            exact hframe more back hnotMore hmore
          · cases more with
            | nil => simpa [hchunk] using hframe [] back (by simp) (by simpa using hmore.symm)
            | cons b more =>
              rw [List.cons_append, List.cons.injEq] at hmore
              rw [hchunk, hmore.1] at hnot
              simp at hnot
        · rw [hend fun hm => h (List.mem_append_right _ hm), List.append_assoc]

/-! ## The main result -/

/-- **All frames.** -/
lemma runLoop_framesStep (maxBytes : ℕ) (hfailed : Fill.failed ∉ reader) (found : List FrameRead) :
    ∃ fuel, runLoop (framesStep maxBytes) fuel (found, reader) =
      some (.ok (found ++ (lines (stream reader)).map (frameOf maxBytes))) := by
  induction hn : (stream reader).length using Nat.strong_induction_on generalizing reader found with
  | _ n ih =>
    obtain ⟨hframe, hend⟩ := readFrom_of maxBytes hfailed []
    rw [← start_eq] at hframe hend
    by_cases hfeed : lineFeed ∈ stream reader
    · obtain ⟨front, back, hsplit, hfront⟩ := List.eq_append_cons_of_mem hfeed
      obtain ⟨reader', hread, hback, hfailed'⟩ := hframe front back hfront hsplit
      have hlength : (stream reader').length < n := by
        rw [hback, ← hn, hsplit, List.length_append, List.length_cons]
        omega
      obtain ⟨fuel, hrun⟩ := ih _ hlength hfailed' (found ++ [frameOf maxBytes front]) rfl
      refine ⟨fuel + 1, ?_⟩
      have hstep : framesStep maxBytes (found, reader) =
          .inl (found ++ [frameOf maxBytes front], reader') := by
        simp only [framesStep, readFrame, hread, List.nil_append]
      rw [hsplit, lines_append hfront, List.map_cons, ← hback, ← List.singleton_append,
        ← List.append_assoc, runLoop, hstep]
      exact hrun
    · have hread := hend hfeed
      by_cases hnil : stream reader = []
      · refine ⟨1, ?_⟩
        have hstep : framesStep maxBytes (found, reader) = .inr (.ok found) := by
          simp only [framesStep, readFrame, hread, hnil, List.append_nil, if_true]
        rw [runLoop, hstep, hnil, lines_nil, List.map_nil, List.append_nil]
      · -- the last line has no line feed
        refine ⟨2, ?_⟩
        have hstep : framesStep maxBytes (found, reader) =
            .inl (found ++ [frameOf maxBytes (stream reader)], []) := by
          simp only [framesStep, readFrame, hread, List.nil_append, hnil, if_false]
        rw [runLoop, hstep, lines_of_notMem hfeed hnil]
        rfl

/-- **Frames are lines.**  In whatever chunks a stream comes, and with whatever interruptions: the frames
that are read are its lines; a line up to the limit is returned without one carriage return at its end, and a
longer one is reported with its length.  Behind every frame the next line begins. -/
theorem readFrames_lines (maxBytes : ℕ) (reader : Reader) (hfailed : Fill.failed ∉ reader) :
    (∃ fuel, readFrames maxBytes fuel reader =
      some (.ok ((lines (stream reader)).map (frameOf maxBytes)))) ∧
    (∀ line rest, lineFeed ∉ line → stream reader = line ++ lineFeed :: rest →
      ∃ reader' : Reader, readFrame maxBytes reader = (.ok (some (frameOf maxBytes line)), reader') ∧
        stream reader' = rest ∧ Fill.failed ∉ reader') := by
  refine ⟨?_, ?_⟩
  · obtain ⟨fuel, hrun⟩ := runLoop_framesStep maxBytes hfailed []
    exact ⟨fuel, hrun⟩
  · have hframe := (readFrom_of maxBytes hfailed []).1
    rw [← start_eq] at hframe
    exact hframe

/-- A short line, a longer one and one that is not terminated, with a carriage return and its line feed in
two chunks. -/
def threeLines : Reader :=
  [.available 97 [98, 13], .interrupted, .available 10 [97, 98], .available 99 [100, 101, 10, 97]]

theorem readFrames_threeLines :
    ∃ fuel, readFrames 4 fuel threeLines = some (.ok [.line [97, 98], .oversized 5, .line [97]]) :=
  (readFrames_lines 4 threeLines (by decide)).1

/-- The same, with lengths that do not saturate. -/
def exactFrameOf (maxBytes : ℕ) (line : List UInt8) : FrameRead :=
  if line.length ≤ maxBytes then
    .line (if line.getLast? = some carriageReturn then line.dropLast else line)
  else .oversized line.length

/-- **Lengths saturate.**  A line of more bytes than the greatest `usize` is not reported with its length. -/
theorem readFrames_saturates :
    ¬∀ (maxBytes fuel : ℕ) (reader : Reader) (frames : List FrameRead), Fill.failed ∉ reader →
      readFrames maxBytes fuel reader = some (.ok frames) →
      frames = (lines (stream reader)).map (exactFrameOf maxBytes) := by
  intro h
  obtain ⟨bytes, hbytes, hnotBytes⟩ : ∃ bytes : List UInt8, bytes.length = usizeMax ∧ lineFeed ∉ bytes :=
    ⟨List.replicate usizeMax 97, List.length_replicate,
      fun hmem => absurd (List.eq_of_mem_replicate hmem) (by decide)⟩
  have hnot : lineFeed ∉ 97 :: bytes := List.not_mem_cons_of_ne_of_not_mem (by decide) hnotBytes
  have hlength : (97 :: bytes).length = usizeMax + 1 := by rw [List.length_cons, hbytes]
  have hstream : stream [.available 97 bytes] = 97 :: bytes := List.append_nil _
  have hfailed : Fill.failed ∉ [Fill.available 97 bytes] := by simp
  obtain ⟨fuel, hrun⟩ := runLoop_framesStep 0 hfailed []
  have hframes := h 0 fuel _ _ hfailed hrun
  rw [hstream, lines_of_notMem hnot (List.cons_ne_nil _ _)] at hframes
  simp only [List.nil_append, List.map_cons, List.map_nil, frameOf, exactFrameOf, hlength] at hframes
  have hpos : 0 < usizeMax := by decide
  rw [if_neg (by omega), if_neg (by omega)] at hframes
  simp only [List.cons.injEq, FrameRead.oversized.injEq, and_true] at hframes
  omega

end Frames
end NestWeaver
