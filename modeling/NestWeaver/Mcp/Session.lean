import Mathlib.Data.List.AList
import NestWeaver.Framework.Transition
import NestWeaver.Mcp.Protocol

/-!
# The stdio session

`crates/nestweaver-mcp/src/session.rs`: a reader thread takes in frames, answers what needs no work
and queues the rest; the dispatch loop serves the queued envelopes one request at a time.  The two
share the table of pending requests and one cancel flag for each of them.

A state holds both threads' program points, and an action is what one of them does between two
points where the other can come in: taking the lock, reading or setting a flag, sending to the
channel, writing a frame.  A frame is given as the reader finds it after UTF-8 decoding and JSON
parsing; reads and writes may fail.  The address of a request's flag is its ticket, so tickets are
numbered in the order of admission.  `requests`, `dispatched` and `completed` are histories, and a
response carries the ticket of its request; the code does not keep these.
-/

set_option linter.all false

namespace NestWeaver
namespace Mcp

/-- The key of a request id: its serialization. -/
def key (id : Json) : String := id.toText

/-- Serializations of valid ids are different. -/
lemma key_inj {id id' : Json} (h : validId id = true) (h' : validId id' = true)
    (heq : key id = key id') : id = id' := by
  have htext : id.text = id'.text := String.ofList_inj.mp heq
  have hnull : Json.null.text = ['n', 'u', 'l', 'l'] := by decide
  -- an integer begins with a digit or a sign, and neither null nor a string does
  have hint : ∀ (n : ℤ) (c : Char) (cs : List Char), c ≠ '-' → c.isDigit = false →
      Json.numberText (.int n) ≠ c :: cs := by
    intro n c cs hsign hdigit hcs
    by_cases hn : n < 0
    · exact hsign (List.cons.inj (hcs.symm.trans (if_pos hn))).1
    · have hmem : c ∈ Nat.toDigits 10 n.natAbs := (if_neg hn).symm.trans hcs ▸ List.mem_cons_self
      rw [Nat.isDigit_of_mem_toDigits (by decide) (by decide) hmem] at hdigit
      cases hdigit
  match id, id', h, h', htext with
  | .null, .null, _, _, _ => rfl
  | .str s, .str t, _, _, htext => rw [Json.stringText_inj (s := s) (t := t) htext]
  | .num (.int m), .num (.int n), _, _, htext => rw [Json.numberText_int_inj (m := m) (n := n) htext]
  | .null, .str s, _, _, htext => exact absurd (List.cons.inj (hnull.symm.trans htext)).1 (by decide)
  | .str s, .null, _, _, htext => exact absurd (List.cons.inj (hnull.symm.trans htext.symm)).1 (by decide)
  | .null, .num (.int n), _, _, htext =>
    exact absurd (htext.symm.trans hnull) (hint n _ _ (by decide) (by decide))
  | .num (.int n), .null, _, _, htext =>
    exact absurd (htext.trans hnull) (hint n _ _ (by decide) (by decide))
  | .str s, .num (.int n), _, _, htext => exact absurd htext.symm (hint n '"' _ (by decide) (by decide))
  | .num (.int n), .str s, _, _, htext => exact absurd htext (hint n '"' _ (by decide) (by decide))

/-! ## The table of pending requests -/

def maxPendingRequests : ℕ := 128

/-- What the lock guards: the pending requests by key, as tickets, and the flags by ticket. -/
structure Table where
  pending : AList fun _ : String => ℕ
  flags : List Bool
  requests : List Request

def Table.cancelled (tb : Table) (t : ℕ) : Prop := tb.flags[t]? = some true

instance (tb : Table) (t : ℕ) : Decidable (tb.cancelled t) :=
  inferInstanceAs (Decidable (_ = _))

def Table.cancel (tb : Table) (k : String) : Table :=
  match tb.pending.lookup k with
  | some t => { tb with flags := tb.flags.set t true }
  | none => tb

/-- Every flag of a pending request is set. -/
def Table.cancelAll (tb : Table) : Table :=
  { tb with
    flags := tb.flags.mapIdx fun t flag => flag || tb.pending.entries.any fun e => e.2 = t }

def Table.insert (tb : Table) (k : String) (req : Request) : Table :=
  ⟨tb.pending.insert k tb.flags.length, tb.flags ++ [false], tb.requests ++ [req]⟩

def Table.remove (tb : Table) (k : String) : Table := { tb with pending := tb.pending.erase k }

inductive Item
  | reply (value : Json)
  | dispatch (req : Request) (ticket : ℕ)

/-- The id that a value cancels, when it is a valid cancellation. -/
def cancelledId (isRegisteredTool : String → Bool) (value : Json) : Option Json :=
  match validateRequest value with
  | .error _ => none
  | .ok req =>
    match validateMethodParams isRegisteredTool req with
    | .error _ => none
    | .ok () =>
      if req.method = "notifications/cancelled" then req.params.bind (Json.get · "requestId")
      else none

/-- `admit`: what the reader does with one value of a frame. -/
def admitValue (isRegisteredTool : String → Bool) (tb : Table) (value : Json) : Table × Option Item :=
  match validateRequest value with
  | .error e => (tb, some (.reply (failure e.responseId invalidRequest e.message)))
  | .ok req =>
    match validateMethodParams isRegisteredTool req with
    | .error message => (tb, req.id.map fun id => .reply (failure id invalidParams message))
    | .ok () =>
      if req.method = "notifications/cancelled" then
        match req.params.bind (Json.get · "requestId") with
        | some id => (tb.cancel (key id), none)
        | none => (tb, none)
      else
        match req.id with
        | none => (tb, none)
        | some id =>
          if key id ∈ tb.pending then
            (tb, some (.reply (failure id invalidRequest "request id is already in flight")))
          else if req.method = "ping" then
            (tb, some (.reply (.obj [("jsonrpc", .str "2.0"), ("id", id), ("result", .obj [])])))
          else if tb.pending.entries.length ≥ maxPendingRequests then
            -- the reader never waits for the work it must be able to cancel
            (tb, some (.reply (failure id invalidRequest
              "too many pending requests; retry after an in-flight request completes")))
          else (tb.insert (key id) req, some (.dispatch req tb.flags.length))

/-! ## The two threads -/

/-- A frame as the reader finds it. -/
inductive Frame
  | notUtf8
  | oversized (length : ℕ)
  | blank
  | malformed (error : String)
  | value (v : Json)

structure Envelope where
  batch : Bool
  items : List Item

/-- A response, with the ticket of the request it answers when it went through the loop. -/
abbrev Response := Option ℕ × Json

/-- What is written at once: an array for a batch. -/
structure Written where
  batch : Bool
  responses : List Response

inductive Reader
  | reading
  | admitting (batch : Bool) (values : List Json) (items : List Item)
  | answering (batch : Bool) (replies : List Json)
  /-- An early exit, before the guard sets the flags. -/
  | leaving (undelivered : List Item)
  | done (undelivered : List Item)

/-- The envelope being served. -/
structure Work where
  batch : Bool
  items : List Item
  responses : List Response

inductive DispatchLoop
  | idle
  | serving (w : Work)
  /-- The dispatch of a request runs. -/
  | working (w : Work) (req : Request) (ticket : ℕ)
  /-- The loop is about to take the lock for the request. -/
  | finishing (w : Work) (req : Request) (ticket : ℕ) (response : Option Json)
  /-- A write failed; the flags are not set yet. -/
  | failing (lost : List Response)
  | stopped (lost : List Response)

structure Session where
  table : Table
  reader : Reader
  channel : List (Option Envelope)
  dispatchLoop : DispatchLoop
  output : List Written
  dispatched : List ℕ
  completed : List ℕ

def Session.init : Session where
  table := ⟨∅, [], []⟩
  reader := .reading
  channel := []
  dispatchLoop := .idle
  output := []
  dispatched := []
  completed := []

inductive Action
  /-- The reader reads a frame, a read error or the end of the input. -/
  | frame (f : Frame)
  | readError
  | eof
  /-- It admits the next value of the frame, and hands the items on. -/
  | admitNext
  | finish
  | answer (written : Bool)
  | leave
  /-- The loop takes the next envelope, and the next item of it. -/
  | receive
  | reach
  | returned (response : Json)
  | complete
  | write (written : Bool)
  | abort
  | close

/-! ## The reader -/

/-- How a frame goes on. -/
def Frame.next (maxFrameBytes : ℕ) : Frame → Reader
  | .notUtf8 => .answering false
      [failure .null parseError "invalid JSON: stream did not contain valid UTF-8"]
  | .oversized length => .answering false
      [failure .null parseError ("invalid JSON: frame of " ++ toString length ++
        " bytes exceeds the " ++ toString maxFrameBytes ++
        "-byte stdio frame limit and was discarded")]
  | .blank => .reading
  | .malformed error => .answering false [failure .null parseError ("invalid JSON: " ++ error)]
  | .value (.arr []) => .answering false [failure .null invalidRequest "empty batch array"]
  | .value (.arr values) => .admitting true values []
  | .value v => .admitting false [v] []

def Item.reply? : Item → Option Json
  | .reply value => some value
  | .dispatch _ _ => none

/-- The items of a frame: nothing, an immediate answer, or an envelope for the loop. -/
def Session.finishFrame (s : Session) (batch : Bool) (items : List Item) : Session :=
  if items = [] then { s with reader := .reading }
  else
    match items.mapM Item.reply? with
    | some replies => { s with reader := .answering batch replies }
    | none =>
      match s.dispatchLoop with
      -- the receiver is gone
      | .stopped _ => { s with reader := .leaving items }
      | _ => { s with reader := .reading, channel := s.channel ++ [some ⟨batch, items⟩] }

/-! ## One action -/

section Step

variable (isRegisteredTool : String → Bool) (maxFrameBytes : ℕ)

def readerStep (s : Session) : Action → Option Session
  | .frame f =>
    match s.reader with
    | .reading => some { s with reader := f.next maxFrameBytes }
    | _ => none
  | .readError =>
    match s.reader with
    | .reading => some { s with reader := .leaving [], channel := s.channel ++ [none] }
    | _ => none
  | .eof =>
    match s.reader with
    | .reading => some { s with reader := .done [] }
    | _ => none
  | .admitNext =>
    match s.reader with
    | .admitting batch (v :: values) items =>
      let next := admitValue isRegisteredTool s.table v
      some { s with
        table := next.1
        reader := .admitting batch values (items ++ next.2.toList) }
    | _ => none
  | .finish =>
    match s.reader with
    | .admitting batch [] items => some (s.finishFrame batch items)
    | _ => none
  | .answer written =>
    match s.reader with
    | .answering batch replies =>
      if written then
        some { s with
          reader := .reading
          output := s.output ++ [⟨batch, replies.map fun value => (none, value)⟩] }
      else some { s with reader := .leaving [] }
    | _ => none
  | .leave =>
    match s.reader with
    | .leaving undelivered =>
      some { s with table := s.table.cancelAll, reader := .done undelivered }
    | _ => none
  | _ => none

/-- The lock section after a request: its key is freed, and a response that was not cancelled is
kept. -/
def Session.completeRequest (s : Session) (w : Work) (req : Request) (t : ℕ)
    (response : Option Json) : Session :=
  let responses :=
    match response with
    | some value => if s.table.cancelled t then [] else [(some t, value)]
    | none => []
  { s with
    table := s.table.remove (key (req.id.getD .null))
    dispatchLoop := .serving { w with responses := w.responses ++ responses }
    completed := s.completed ++ [t] }

def loopStep (s : Session) : Action → Option Session
  | .receive =>
    match s.dispatchLoop, s.channel with
    | .idle, some envelope :: channel =>
      some { s with
        channel := channel
        dispatchLoop := .serving ⟨envelope.batch, envelope.items, []⟩ }
    | .idle, none :: channel => some { s with channel := channel, dispatchLoop := .stopped [] }
    | _, _ => none
  | .close =>
    match s.dispatchLoop, s.channel, s.reader with
    | .idle, [], .done _ => some { s with dispatchLoop := .stopped [] }
    | _, _, _ => none
  | .reach =>
    match s.dispatchLoop with
    | .serving ⟨batch, .reply value :: items, responses⟩ =>
      some { s with dispatchLoop := .serving ⟨batch, items, responses ++ [(none, value)]⟩ }
    | .serving ⟨batch, .dispatch req t :: items, responses⟩ =>
      if s.table.cancelled t then
        some { s with dispatchLoop := .finishing ⟨batch, items, responses⟩ req t none }
      else
        some { s with
          dispatchLoop := .working ⟨batch, items, responses⟩ req t
          dispatched := s.dispatched ++ [t] }
    | _ => none
  | .returned response =>
    match s.dispatchLoop with
    | .working w req t => some { s with dispatchLoop := .finishing w req t (some response) }
    | _ => none
  | .complete =>
    match s.dispatchLoop with
    | .finishing w req t response => some (s.completeRequest w req t response)
    | _ => none
  | .write written =>
    match s.dispatchLoop with
    | .serving ⟨batch, [], responses⟩ =>
      if responses = [] then some { s with dispatchLoop := .idle }
      else if written then
        some { s with dispatchLoop := .idle, output := s.output ++ [⟨batch, responses⟩] }
      else some { s with dispatchLoop := .failing responses }
    | _ => none
  | .abort =>
    match s.dispatchLoop with
    | .failing lost => some { s with table := s.table.cancelAll, dispatchLoop := .stopped lost }
    | _ => none
  | _ => none

/-- An action of either thread. -/
def sessionStep (s : Session) (a : Action) : Option Session :=
  (readerStep isRegisteredTool maxFrameBytes s a).or (loopStep s a)

end Step

end Mcp
end NestWeaver
