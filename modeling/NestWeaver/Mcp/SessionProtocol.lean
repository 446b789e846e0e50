import Mathlib.Data.List.Nodup
import Mathlib.Data.List.Range
import NestWeaver.Mcp.Session

/-!
# The session protocol

Every action of the two threads has one of six effects (`sessionStep_effect`): it changes nothing
that matters, sets one flag or those of all pending requests, admits a request, dispatches one or
completes one.  The invariant says that the completed requests and those in flight are, in this
order, all admitted ones, that the table holds those in flight, and that the completed ones that
were not cancelled have one response each.
-/

set_option linter.all false

namespace NestWeaver
namespace Mcp

open Transition

variable {isRegisteredTool : String → Bool} {maxFrameBytes : ℕ} {s s' : Session} {a : Action}
  {tb : Table} {v : Json} {k : String} {t u : ℕ}

/-! ## Requests in flight -/

def Item.ticket? : Item → Option (Request × ℕ)
  | .reply _ => none
  | .dispatch req t => some (req, t)

/-- The requests of a list of items, with their tickets. -/
def tickets (items : List Item) : List (Request × ℕ) := items.filterMap Item.ticket?

def Reader.items : Reader → List Item
  | .admitting _ _ items => items
  | .leaving undelivered => undelivered
  | .done undelivered => undelivered
  | _ => []

def DispatchLoop.inFlight : DispatchLoop → List (Request × ℕ)
  | .serving w => tickets w.items
  | .working w req t => (req, t) :: tickets w.items
  | .finishing w req t _ => (req, t) :: tickets w.items
  | _ => []

def channelTickets (channel : List (Option Envelope)) : List (Request × ℕ) :=
  channel.flatMap fun message => message.elim [] fun envelope => tickets envelope.items

/-- The admitted requests that are not completed, in the order in which the loop will reach them. -/
def Session.inFlight (s : Session) : List (Request × ℕ) :=
  s.dispatchLoop.inFlight ++ channelTickets s.channel ++ tickets s.reader.items

/-- The request the loop has reached and not completed. -/
def DispatchLoop.current : DispatchLoop → List ℕ
  | .working _ _ t => [t]
  | .finishing _ _ t _ => [t]
  | _ => []

def DispatchLoop.responses : DispatchLoop → List Response
  | .serving w => w.responses
  | .working w _ _ => w.responses
  | .finishing w _ _ _ => w.responses
  | .failing lost => lost
  | .stopped lost => lost
  | .idle => []

/-- The loop passes over a request without a response. -/
def DispatchLoop.Skips (l : DispatchLoop) (t : ℕ) : Prop := ∃ w req, l = .finishing w req t none

/-- How many responses to a request were written or are held. -/
def Session.responseCount (s : Session) (t : ℕ) : ℕ :=
  ((s.output.flatMap Written.responses ++ s.dispatchLoop.responses).map Prod.fst).count (some t)

lemma tickets_append (items items' : List Item) :
    tickets (items ++ items') = tickets items ++ tickets items' := List.filterMap_append

lemma tickets_of_replies {items : List Item} {replies : List Json}
    (h : items.mapM Item.reply? = some replies) : tickets items = [] := by
  induction items generalizing replies with
  | nil => rfl
  | cons item items ih =>
    rw [List.mapM_cons] at h
    obtain ⟨reply, hreply, hrest⟩ := Option.bind_eq_some_iff.mp h
    obtain ⟨rest, hrest, -⟩ := Option.bind_eq_some_iff.mp hrest
    cases item with
    | reply value => exact ih hrest
    | dispatch req t => cases hreply

/-! ## What an action can do -/

/-- What admitting a value can do: it sets the flag of a pending request, adds a request to the
table, or leaves the table as it is. -/
lemma admit_cases (isRegisteredTool : String → Bool) (tb : Table) (v : Json) :
    (∃ id, cancelledId isRegisteredTool v = some id ∧ validId id = true ∧
      admitValue isRegisteredTool tb v = (tb.cancel (key id), none)) ∨
    (cancelledId isRegisteredTool v = none ∧ ∃ req id, req.id = some id ∧ validId id = true ∧
      key id ∉ tb.pending ∧ tb.pending.entries.length < maxPendingRequests ∧
      admitValue isRegisteredTool tb v =
        (tb.insert (key id) req, some (.dispatch req tb.flags.length))) ∨
    (cancelledId isRegisteredTool v = none ∧ ∃ item, admitValue isRegisteredTool tb v = (tb, item) ∧
      tickets item.toList = []) := by
  unfold cancelledId admitValue
  cases hreq : validateRequest v with
  | error e => exact .inr (.inr ⟨rfl, _, rfl, rfl⟩)
  | ok req =>
    cases hparams : validateMethodParams isRegisteredTool req with
    | error message =>
      refine .inr (.inr ⟨by simp [hparams],
        req.id.map fun id => .reply (failure id invalidParams message), by simp [hparams], ?_⟩)
      cases req.id <;> rfl
    | ok u =>
      simp only [hparams]
      by_cases hcancel : req.method = "notifications/cancelled"
      · -- a cancellation names an id
        obtain ⟨params, hsome, hvalid⟩ := validRequestId_of_validateMethodParams hcancel hparams
        rw [if_pos hcancel, if_pos hcancel, hsome, Option.bind_some]
        cases hid : params.get "requestId" with
        | none => rw [hid] at hvalid; cases hvalid
        | some id =>
          refine .inl ⟨id, rfl, ?_, rfl⟩
          rw [hid] at hvalid
          cases id <;> first | rfl | exact hvalid
      · rw [if_neg hcancel, if_neg hcancel]
        cases hid : req.id with
        | none => exact .inr (.inr ⟨rfl, _, rfl, rfl⟩)
        | some id =>
          dsimp only
          split_ifs with hpending hping hfull
          · exact .inr (.inr ⟨rfl, _, rfl, rfl⟩)
          · exact .inr (.inr ⟨rfl, _, rfl, rfl⟩)
          · exact .inr (.inr ⟨rfl, _, rfl, rfl⟩)
          · exact .inr (.inl ⟨rfl, req, id, hid, validId_of_validateRequest hreq hid, hpending,
              not_le.mp hfull, rfl⟩)

/-- The id of the cancellation an action takes in. -/
def Session.cancels (isRegisteredTool : String → Bool) (s : Session) (a : Action) : Option Json :=
  match a, s.reader with
  | .admitNext, .admitting _ (v :: _) _ => cancelledId isRegisteredTool v
  | _, _ => none

/-- One of the two exits after failed input or output. -/
def Action.Fails (a : Action) : Prop := a = .leave ∨ a = .abort

/-- What does not concern the table stays as it is. -/
structure Same (s s' : Session) : Prop where
  inFlight : s'.inFlight = s.inFlight
  completed : s'.completed = s.completed
  dispatched : s'.dispatched = s.dispatched
  current : s.dispatchLoop.current.Sublist s'.dispatchLoop.current
  skips : ∀ t, s'.dispatchLoop.Skips t → s.dispatchLoop.Skips t ∨ s.table.cancelled t
  responseCount : ∀ t, s'.responseCount t = s.responseCount t

/-- The effects an action can have. -/
inductive Effect (isRegisteredTool : String → Bool) (s : Session) (a : Action) (s' : Session) : Prop
  | quiet (same : Same s s') (table : s'.table = s.table)
      (cancels : s.cancels isRegisteredTool a = none) (fails : ¬a.Fails)
  | cancel (id : Json) (valid : validId id = true) (same : Same s s')
      (table : s'.table = s.table.cancel (key id))
      (cancels : s.cancels isRegisteredTool a = some id) (fails : ¬a.Fails)
  | cancelAll (same : Same s s') (table : s'.table = s.table.cancelAll) (fails : a.Fails)
  | admitted (req : Request) (id : Json) (hid : req.id = some id) (valid : validId id = true)
      (fresh : key id ∉ s.table.pending)
      (room : s.table.pending.entries.length < maxPendingRequests)
      (table : s'.table = s.table.insert (key id) req)
      (inFlight : s'.inFlight = s.inFlight ++ [(req, s.table.flags.length)])
      (completed : s'.completed = s.completed) (dispatched : s'.dispatched = s.dispatched)
      (loop : s'.dispatchLoop = s.dispatchLoop) (output : s'.output = s.output)
      (cancels : s.cancels isRegisteredTool a = none) (fails : ¬a.Fails)
  | dispatch (t : ℕ) (hold : ¬s.table.cancelled t) (table : s'.table = s.table)
      (inFlight : s'.inFlight = s.inFlight) (completed : s'.completed = s.completed)
      (dispatched : s'.dispatched = s.dispatched ++ [t]) (idle : s.dispatchLoop.current = [])
      (current : s'.dispatchLoop.current = [t]) (skips : ∀ t, ¬s'.dispatchLoop.Skips t)
      (responseCount : ∀ t, s'.responseCount t = s.responseCount t)
      (cancels : s.cancels isRegisteredTool a = none) (fails : ¬a.Fails)
  | complete (req : Request) (t : ℕ) (response : Option Json)
      (table : s'.table = s.table.remove (key (req.id.getD .null)))
      (inFlight : s.inFlight = (req, t) :: s'.inFlight)
      (completed : s'.completed = s.completed ++ [t]) (dispatched : s'.dispatched = s.dispatched)
      (current : s.dispatchLoop.current = [t]) (idle : s'.dispatchLoop.current = [])
      (skips : ∀ t, ¬s'.dispatchLoop.Skips t) (skipped : response = none → s.dispatchLoop.Skips t)
      (responseCount : ∀ u, s'.responseCount u = s.responseCount u +
        if u = t ∧ response.isSome ∧ ¬s.table.cancelled t then 1 else 0)
      (cancels : s.cancels isRegisteredTool a = none) (fails : ¬a.Fails)

lemma same_reader {r : Reader} (h : tickets r.items = tickets s.reader.items) :
    Same s { s with reader := r } where
  inFlight := by simp only [Session.inFlight, h]
  completed := rfl
  dispatched := rfl
  current := List.Sublist.refl _
  skips _ := .inl
  responseCount _ := rfl

/-- What the reader writes itself answers no request in flight. -/
lemma responseCount_answer (s : Session) (r : Reader) (batch : Bool) (replies : List Json) (t : ℕ) :
    ({ s with
      reader := r
      output := s.output ++ [⟨batch, replies.map fun value => (none, value)⟩] } :
        Session).responseCount t = s.responseCount t := by
  simp only [Session.responseCount, List.flatMap_append, List.flatMap_singleton, List.map_append,
    List.map_map, List.count_append]
  have hnone : List.count (some t) (replies.map (Prod.fst ∘ fun value => ((none, value) : Response)))
      = 0 := by
    rw [List.count_eq_zero]
    simp
  omega

lemma readerStep_effect (h : readerStep isRegisteredTool maxFrameBytes s a = some s') :
    Effect isRegisteredTool s a s' := by
  unfold readerStep at h
  split at h
  · -- a frame
    rename_i f
    split at h <;> [skip; cases h]
    rename_i hreader
    obtain rfl := Option.some.inj h
    refine .quiet (same_reader ?_) rfl rfl (by simp [Action.Fails])
    rw [hreader]
    unfold Frame.next
    split <;> rfl
  · split at h <;> [skip; cases h]
    rename_i hreader
    obtain rfl := Option.some.inj h
    refine .quiet ⟨?_, rfl, rfl, List.Sublist.refl _, fun _ => .inl, fun _ => rfl⟩ rfl rfl
      (by simp [Action.Fails])
    simp [Session.inFlight, channelTickets, hreader, Reader.items, tickets]
  · split at h <;> [skip; cases h]
    rename_i hreader
    obtain rfl := Option.some.inj h
    exact .quiet (same_reader (by rw [hreader]; rfl)) rfl rfl (by simp [Action.Fails])
  · -- a value is admitted
    split at h <;> [skip; cases h]
    rename_i batch value values items hreader
    have hcancels : s.cancels isRegisteredTool .admitNext = cancelledId isRegisteredTool value := by
      simp only [Session.cancels, hreader]
    obtain rfl := Option.some.inj h
    obtain ⟨id, hid, hvalid, heq⟩ | ⟨hid, req, id, hreq, hvalid, hfresh, hroom, heq⟩ |
      ⟨hid, item, heq, hitem⟩ := admit_cases isRegisteredTool s.table value
    · refine .cancel id hvalid ⟨?_, rfl, rfl, List.Sublist.refl _, fun _ => .inl, fun _ => rfl⟩
        (by rw [heq]) (hcancels.trans hid) (by simp [Action.Fails])
      simp [Session.inFlight, hreader, Reader.items, heq]
    · refine .admitted req id hreq hvalid hfresh hroom (by rw [heq]) ?_ rfl rfl rfl rfl
        (hcancels.trans hid) (by simp [Action.Fails])
      simp [Session.inFlight, hreader, Reader.items, heq, tickets, Item.ticket?]
    · refine .quiet ⟨?_, rfl, rfl, List.Sublist.refl _, fun _ => .inl, fun _ => rfl⟩
        (by rw [heq]) (hcancels.trans hid) (by simp [Action.Fails])
      simp [Session.inFlight, hreader, Reader.items, heq, tickets_append, hitem]
  · -- the frame is handed on
    split at h <;> [skip; cases h]
    rename_i batch items hreader
    obtain rfl := Option.some.inj h
    have hcancels : s.cancels isRegisteredTool .finish = none := rfl
    unfold Session.finishFrame
    split_ifs with hitems
    · exact .quiet (same_reader (by rw [hreader, hitems]; rfl)) rfl hcancels (by simp [Action.Fails])
    · split
      · rename_i replies hreplies
        refine .quiet (same_reader ?_) rfl hcancels (by simp [Action.Fails])
        rw [hreader]
        exact (tickets_of_replies hreplies).symm
      · split
        · exact .quiet (same_reader (by rw [hreader]; rfl)) rfl hcancels (by simp [Action.Fails])
        · refine .quiet ⟨?_, rfl, rfl, List.Sublist.refl _, fun _ => .inl, fun _ => rfl⟩ rfl hcancels
            (by simp [Action.Fails])
          simp [Session.inFlight, hreader, Reader.items, channelTickets, tickets]
  · -- an immediate answer
    rename_i written
    split at h <;> [skip; cases h]
    rename_i batch replies hreader
    split_ifs at h <;> obtain rfl := Option.some.inj h
    · refine .quiet ⟨?_, rfl, rfl, List.Sublist.refl _, fun _ => .inl, fun t => ?_⟩ rfl rfl
        (by simp [Action.Fails])
      · simp [Session.inFlight, hreader, Reader.items]
      · exact responseCount_answer s _ batch replies t
    · exact .quiet (same_reader (by rw [hreader]; rfl)) rfl rfl (by simp [Action.Fails])
  · split at h <;> [skip; cases h]
    rename_i undelivered hreader
    obtain rfl := Option.some.inj h
    refine .cancelAll ⟨?_, rfl, rfl, List.Sublist.refl _, fun _ => .inl, fun _ => rfl⟩ rfl (.inl rfl)
    simp [Session.inFlight, hreader, Reader.items]
  · cases h

/-- An action of the loop that leaves the requests in flight as they are. -/
lemma same_loop {l : DispatchLoop} {channel : List (Option Envelope)} {output : List Written}
    (hflight : l.inFlight ++ channelTickets channel =
      s.dispatchLoop.inFlight ++ channelTickets s.channel)
    (hcurrent : s.dispatchLoop.current.Sublist l.current)
    (hskips : ∀ t, l.Skips t → s.dispatchLoop.Skips t ∨ s.table.cancelled t)
    (hresponses : ∀ t, ((output.flatMap Written.responses ++ l.responses).map Prod.fst).count (some t)
      = s.responseCount t) :
    Same s { s with channel := channel, dispatchLoop := l, output := output } where
  inFlight := by simp only [Session.inFlight, hflight]
  completed := rfl
  dispatched := rfl
  current := hcurrent
  skips := hskips
  responseCount := hresponses

lemma not_skips_of_ne {l : DispatchLoop} (h : ∀ w req t, l ≠ .finishing w req t none) (t : ℕ) :
    ¬l.Skips t := fun ⟨w, req, hl⟩ => h w req t hl

lemma loopStep_effect (h : loopStep s a = some s') : Effect isRegisteredTool s a s' := by
  obtain ⟨table, reader, channel, l, output, dispatched, completed⟩ := s
  unfold loopStep at h
  split at h
  · -- an envelope, or a read error
    dsimp only at h
    split at h <;> [skip; skip; cases h] <;> obtain rfl := Option.some.inj h
    · exact .quiet (same_loop (by simp [DispatchLoop.inFlight, channelTickets]) (List.Sublist.refl _)
        (fun t ht => absurd ht (not_skips_of_ne (by simp) t)) fun _ => rfl) rfl rfl
        (by simp [Action.Fails])
    · exact .quiet (same_loop (by simp [DispatchLoop.inFlight, channelTickets]) (List.Sublist.refl _)
        (fun t ht => absurd ht (not_skips_of_ne (by simp) t)) fun _ => rfl) rfl rfl
        (by simp [Action.Fails])
  · dsimp only at h
    split at h <;> [skip; cases h]
    obtain rfl := Option.some.inj h
    exact .quiet (same_loop (by simp [DispatchLoop.inFlight]) (List.Sublist.refl _)
      (fun t ht => absurd ht (not_skips_of_ne (by simp) t)) fun _ => rfl) rfl rfl
      (by simp [Action.Fails])
  · -- the next item
    dsimp only at h
    split at h <;> [skip; skip; cases h]
    · rename_i batch value items responses
      obtain rfl := Option.some.inj h
      refine .quiet (same_loop rfl (List.Sublist.refl _)
        (fun t ht => absurd ht (not_skips_of_ne (by simp) t)) fun t => ?_) rfl rfl
        (by simp [Action.Fails])
      simp [Session.responseCount, DispatchLoop.responses]
    · rename_i batch req t items responses
      split_ifs at h with hcancelled <;> obtain rfl := Option.some.inj h
      · refine .quiet (same_loop (by simp [DispatchLoop.inFlight, tickets, Item.ticket?])
          (List.nil_sublist _) (fun u hu => .inr ?_) fun _ => rfl) rfl rfl (by simp [Action.Fails])
        obtain ⟨w, req', hw⟩ := hu
        cases hw
        exact hcancelled
      · exact .dispatch t hcancelled rfl (by simp [Session.inFlight, DispatchLoop.inFlight, tickets,
          Item.ticket?]) rfl rfl rfl rfl (not_skips_of_ne (by simp)) (fun _ => rfl) rfl
          (by simp [Action.Fails])
  · dsimp only at h
    split at h <;> [skip; cases h]
    obtain rfl := Option.some.inj h
    exact .quiet (same_loop (by simp [DispatchLoop.inFlight]) (List.Sublist.refl _)
      (fun t ht => absurd ht (not_skips_of_ne (by simp) t)) fun _ => rfl) rfl rfl
      (by simp [Action.Fails])
  · -- a request is completed
    dsimp only at h
    split at h <;> [skip; cases h]
    rename_i w req t response
    obtain rfl := Option.some.inj h
    refine .complete req t response rfl rfl rfl rfl rfl rfl (not_skips_of_ne (by simp [Session.completeRequest]))
      (fun hnone => ⟨w, req, by rw [hnone]⟩) (fun u => ?_) rfl (by simp [Action.Fails])
    cases response with
    | none => simp [Session.responseCount, Session.completeRequest, DispatchLoop.responses]
    | some value =>
      by_cases hcancelled : table.cancelled t
      · simp [Session.responseCount, Session.completeRequest, DispatchLoop.responses, hcancelled]
      · by_cases hut : u = t
        · subst hut
          simp [Session.responseCount, Session.completeRequest, DispatchLoop.responses, hcancelled]
          omega
        · have htu : t ≠ u := fun heq => hut heq.symm
          simp [Session.responseCount, Session.completeRequest, DispatchLoop.responses, hcancelled,
            hut, htu]
  · -- the responses of an envelope are written
    dsimp only at h
    split at h <;> [skip; cases h]
    rename_i written batch responses
    split_ifs at h with hnil hwritten <;> obtain rfl := Option.some.inj h
    · refine .quiet (same_loop (by simp [DispatchLoop.inFlight, tickets]) (List.Sublist.refl _)
        (fun t ht => absurd ht (not_skips_of_ne (by simp) t)) fun t => ?_) rfl rfl
        (by simp [Action.Fails])
      simp [Session.responseCount, DispatchLoop.responses, hnil]
    · refine .quiet (same_loop (by simp [DispatchLoop.inFlight, tickets]) (List.Sublist.refl _)
        (fun t ht => absurd ht (not_skips_of_ne (by simp) t)) fun t => ?_) rfl rfl
        (by simp [Action.Fails])
      simp [Session.responseCount, DispatchLoop.responses]
    · exact .quiet (same_loop (by simp [DispatchLoop.inFlight, tickets]) (List.Sublist.refl _)
        (fun t ht => absurd ht (not_skips_of_ne (by simp) t)) fun _ => rfl) rfl rfl
        (by simp [Action.Fails])
  · dsimp only at h
    split at h <;> [skip; cases h]
    obtain rfl := Option.some.inj h
    exact .cancelAll ⟨rfl, rfl, rfl, List.Sublist.refl _,
      fun t ht => absurd ht (not_skips_of_ne (by simp) t), fun _ => rfl⟩ rfl (.inr rfl)
  · cases h

/-- What an action of either thread does. -/
lemma sessionStep_effect (h : sessionStep isRegisteredTool maxFrameBytes s a = some s') :
    Effect isRegisteredTool s a s' := by
  rw [sessionStep, Option.or_eq_some_iff] at h
  obtain h | ⟨-, h⟩ := h
  · exact readerStep_effect h
  · exact loopStep_effect h

/-! ## The invariant -/

/-- A request in flight with the given id. -/
def Session.Awaits (s : Session) (t : ℕ) (id : Json) : Prop :=
  ∃ e ∈ s.inFlight, e.2 = t ∧ e.1.id = some id

structure Inv (s : Session) : Prop where
  /-- Tickets are handed out, reached and completed in one order. -/
  fifo : s.completed ++ s.inFlight.map Prod.snd = List.range s.table.flags.length
  requests : s.table.requests.length = s.table.flags.length
  inFlight : ∀ e ∈ s.inFlight, s.table.requests[e.2]? = some e.1
  ids : ∀ e ∈ s.inFlight, ∃ id, e.1.id = some id ∧ validId id = true
  pending : ∀ k t, s.table.pending.lookup k = some t ↔ ∃ id, s.Awaits t id ∧ key id = k
  bounded : s.table.pending.entries.length ≤ maxPendingRequests
  dispatched : s.dispatched.Sublist (s.completed ++ s.dispatchLoop.current)
  skips : ∀ t, s.dispatchLoop.Skips t → s.table.cancelled t
  responseCount : ∀ t, s.responseCount t =
    if t ∈ s.completed ∧ ¬s.table.cancelled t then 1 else 0

lemma inv_init : Inv .init where
  fifo := rfl
  requests := rfl
  inFlight := by simp [Session.init, Session.inFlight, DispatchLoop.inFlight, channelTickets,
    tickets, Reader.items]
  ids := by simp [Session.init, Session.inFlight, DispatchLoop.inFlight, channelTickets,
    tickets, Reader.items]
  pending k t := by
    simp [Session.init, Session.Awaits, Session.inFlight, DispatchLoop.inFlight, channelTickets,
      tickets, Reader.items]
  bounded := Nat.zero_le _
  dispatched := List.nil_sublist _
  skips t h := by
    obtain ⟨w, req, h⟩ := h
    cases h
  responseCount t := by simp [Session.init, Session.responseCount, DispatchLoop.responses]

lemma Inv.nodup (h : Inv s) : (s.completed ++ s.inFlight.map Prod.snd).Nodup :=
  h.fifo ▸ List.nodup_range

/-- A ticket in flight is not completed. -/
lemma Inv.not_completed (h : Inv s) {e : Request × ℕ} (he : e ∈ s.inFlight) :
    e.2 ∉ s.completed := fun hmem =>
  (List.nodup_append.mp h.nodup).2.2 _ hmem _ (List.mem_map_of_mem he) rfl

lemma Inv.ticket_lt (h : Inv s) {e : Request × ℕ} (he : e ∈ s.inFlight) :
    e.2 < s.table.flags.length := by
  rw [← List.mem_range, ← h.fifo]
  exact List.mem_append_right _ (List.mem_map_of_mem he)

/-- An admitted request that is not completed is in flight. -/
lemma Inv.exists_inFlight (h : Inv s) (ht : t < s.table.flags.length) (hopen : t ∉ s.completed) :
    ∃ e ∈ s.inFlight, e.2 = t := by
  rw [← List.mem_range, ← h.fifo] at ht
  exact List.mem_map.mp ((List.mem_append.mp ht).resolve_left hopen)

lemma Inv.validId_of_awaits (h : Inv s) {id : Json} (hawaits : s.Awaits t id) :
    validId id = true := by
  obtain ⟨e, he, -, hid⟩ := hawaits
  obtain ⟨id', hid', hvalid⟩ := h.ids e he
  rw [hid] at hid'
  exact Option.some.inj hid' ▸ hvalid

/-- The table finds the request in flight that has the id. -/
lemma Inv.lookup_key (h : Inv s) {id : Json} (hid : validId id = true) :
    s.table.pending.lookup (key id) = some t ↔ s.Awaits t id := by
  rw [h.pending]
  constructor
  · rintro ⟨id', hawaits, hkey⟩
    rwa [← key_inj (h.validId_of_awaits hawaits) hid hkey]
  · exact fun hawaits => ⟨id, hawaits, rfl⟩

/-! ### Flags -/

lemma cancelled_set (tb : Table) (hu : u < tb.flags.length) :
    ({ tb with flags := tb.flags.set u true } : Table).cancelled t ↔ tb.cancelled t ∨ t = u := by
  simp only [Table.cancelled, List.getElem?_set]
  by_cases hut : u = t
  · subst hut
    simp [hu]
  · have htu : t ≠ u := fun heq => hut heq.symm
    simp [hut, htu]

/-- A cancellation sets the flag of the request in flight that has the id. -/
lemma Inv.cancelled_cancel (h : Inv s) {id : Json} (hid : validId id = true) :
    (s.table.cancel (key id)).cancelled t ↔ s.table.cancelled t ∨ s.Awaits t id := by
  unfold Table.cancel
  split
  · rename_i u hlookup
    have hawaits := (h.lookup_key hid).mp hlookup
    have hlt : u < s.table.flags.length := by
      obtain ⟨e, he, rfl, -⟩ := hawaits
      exact h.ticket_lt he
    rw [cancelled_set _ hlt]
    refine or_congr_right ⟨fun heq => heq ▸ hawaits, fun hother => ?_⟩
    exact Option.some.inj (((h.lookup_key hid).mpr hother).symm.trans hlookup)
  · rename_i hlookup
    have hnone : ¬s.Awaits t id := fun hawaits => by
      rw [(h.lookup_key hid).mpr hawaits] at hlookup
      cases hlookup
    simp [hnone]

lemma Inv.exists_awaits (h : Inv s) {e : Request × ℕ} (he : e ∈ s.inFlight) :
    ∃ id, validId id = true ∧ s.Awaits e.2 id := by
  obtain ⟨id, hid, hvalid⟩ := h.ids e he
  exact ⟨id, hvalid, e, he, rfl, hid⟩

/-- A failed exit sets the flags of the requests in flight. -/
lemma Inv.cancelled_cancelAll (h : Inv s) :
    s.table.cancelAll.cancelled t ↔ s.table.cancelled t ∨ ∃ id, s.Awaits t id := by
  have hpending : (∃ e ∈ s.table.pending.entries, e.2 = t) ↔ ∃ id, s.Awaits t id := by
    constructor
    · rintro ⟨e, he, rfl⟩
      have hlookup : s.table.pending.lookup e.1 = some e.2 := AList.mem_lookup_iff.mpr he
      obtain ⟨id, hawaits, -⟩ := (h.pending _ _).mp hlookup
      exact ⟨id, hawaits⟩
    · rintro ⟨id, hawaits⟩
      have hlookup := (h.pending (key id) t).mpr ⟨id, hawaits, rfl⟩
      exact ⟨⟨key id, t⟩, AList.mem_lookup_iff.mp hlookup, rfl⟩
  rw [← hpending]
  simp only [Table.cancelled, Table.cancelAll, List.getElem?_mapIdx, Option.map_eq_some_iff,
    Bool.or_eq_true, List.any_eq_true, decide_eq_true_eq]
  constructor
  · rintro ⟨flag, hflag, rfl | hmem⟩
    · exact .inl hflag
    · exact .inr hmem
  · rintro (hflag | hmem)
    · exact ⟨true, hflag, .inl rfl⟩
    · obtain ⟨id, e, he, rfl, -⟩ := hpending.mp hmem
      exact ⟨_, List.getElem?_eq_getElem (h.ticket_lt he), .inr hmem⟩

/-! ### Preservation -/

/-- Setting flags of requests in flight keeps the invariant. -/
lemma Inv.of_same (h : Inv s) (same : Same s s') (hpending : s'.table.pending = s.table.pending)
    (hrequests : s'.table.requests = s.table.requests)
    (hlength : s'.table.flags.length = s.table.flags.length)
    (hflags : ∀ t, s'.table.cancelled t → s.table.cancelled t ∨ ∃ id, s.Awaits t id)
    (hmono : ∀ t, s.table.cancelled t → s'.table.cancelled t) : Inv s' where
  fifo := by rw [same.completed, same.inFlight, h.fifo, hlength]
  requests := by rw [hrequests, hlength, h.requests]
  inFlight := by rw [same.inFlight, hrequests]; exact h.inFlight
  ids := by rw [same.inFlight]; exact h.ids
  pending k t := by rw [hpending, h.pending]; simp only [Session.Awaits, same.inFlight]
  bounded := by rw [hpending]; exact h.bounded
  dispatched := by
    rw [same.dispatched, same.completed]
    exact h.dispatched.trans ((List.Sublist.refl _).append same.current)
  skips t ht := (same.skips t ht).elim (fun hskips => hmono t (h.skips t hskips)) (hmono t)
  responseCount t := by
    rw [same.responseCount, h.responseCount, same.completed]
    refine if_congr (and_congr_right fun hdone => not_congr ⟨hmono t, fun hcancelled => ?_⟩) rfl rfl
    -- the flag of a completed request is no longer set
    obtain hold | ⟨id, e, he, rfl, -⟩ := hflags t hcancelled
    · exact hold
    · exact absurd hdone (h.not_completed he)

lemma Inv.admitted (h : Inv s) {req : Request} {id : Json} (hid : req.id = some id)
    (hvalid : validId id = true) (hfresh : key id ∉ s.table.pending)
    (hroom : s.table.pending.entries.length < maxPendingRequests)
    (htable : s'.table = s.table.insert (key id) req)
    (hinFlight : s'.inFlight = s.inFlight ++ [(req, s.table.flags.length)])
    (hcompleted : s'.completed = s.completed) (hdispatched : s'.dispatched = s.dispatched)
    (hloop : s'.dispatchLoop = s.dispatchLoop) (houtput : s'.output = s.output) : Inv s' where
  fifo := by
    rw [hcompleted, hinFlight, htable, List.map_append, ← List.append_assoc, h.fifo]
    simp [Table.insert, List.range_succ]
  requests := by
    rw [htable]
    simp [Table.insert, h.requests]
  inFlight e he := by
    rw [hinFlight] at he
    rw [htable]
    rcases List.mem_append.mp he with he | he
    · have hold := h.inFlight e he
      have hlt := (List.getElem?_eq_some_iff.mp hold).1
      rw [Table.insert, List.getElem?_append_left hlt, hold]
    · obtain rfl := List.mem_singleton.mp he
      rw [Table.insert, List.getElem?_append_right h.requests.le, h.requests, Nat.sub_self]
      rfl
  ids e he := by
    rw [hinFlight] at he
    rcases List.mem_append.mp he with he | he
    · exact h.ids e he
    · obtain rfl := List.mem_singleton.mp he
      exact ⟨id, hid, hvalid⟩
  pending k t := by
    rw [htable]
    simp only [Table.insert, Session.Awaits, hinFlight, List.mem_append, List.mem_singleton]
    by_cases hk : k = key id
    · -- no request in flight has the id
      subst hk
      rw [AList.lookup_insert, Option.some.injEq]
      constructor
      · rintro rfl
        exact ⟨id, ⟨_, .inr rfl, rfl, hid⟩, rfl⟩
      · rintro ⟨id', ⟨e, he | rfl, rfl, hid'⟩, hkey⟩
        · have hlookup := (h.pending (key id) e.2).mpr ⟨id', ⟨e, he, rfl, hid'⟩, hkey⟩
          exact absurd (AList.lookup_isSome.mp (Option.isSome_iff_exists.mpr ⟨_, hlookup⟩)) hfresh
        · rfl
    · rw [AList.lookup_insert_ne hk, h.pending]
      constructor
      · rintro ⟨id', ⟨e, he, ht, hid'⟩, hkey⟩
        exact ⟨id', ⟨e, .inl he, ht, hid'⟩, hkey⟩
      · rintro ⟨id', ⟨e, he | rfl, ht, hid'⟩, hkey⟩
        · exact ⟨id', ⟨e, he, ht, hid'⟩, hkey⟩
        · rw [hid, Option.some.injEq] at hid'
          exact absurd (hid' ▸ hkey).symm hk
  bounded := by
    rw [htable, Table.insert, AList.insert_of_notMem hfresh]
    exact hroom
  dispatched := by rw [hdispatched, hcompleted, hloop]; exact h.dispatched
  skips t ht := by
    rw [hloop] at ht
    have hold := h.skips t ht
    have hlt := (List.getElem?_eq_some_iff.mp hold).1
    rw [htable, Table.cancelled, Table.insert, List.getElem?_append_left hlt]
    exact hold
  responseCount t := by
    have hcount : s'.responseCount t = s.responseCount t := by
      rw [Session.responseCount, Session.responseCount, hloop, houtput]
    rw [hcount, h.responseCount, hcompleted, htable]
    refine if_congr (and_congr_right fun hdone => ?_) rfl rfl
    have hlt : t < s.table.flags.length := by
      rw [← List.mem_range, ← h.fifo]
      exact List.mem_append_left _ hdone
    rw [Table.cancelled, Table.cancelled, Table.insert, List.getElem?_append_left hlt]

lemma Inv.dispatch (h : Inv s) (htable : s'.table = s.table)
    (hinFlight : s'.inFlight = s.inFlight) (hcompleted : s'.completed = s.completed)
    (hdispatched : s'.dispatched = s.dispatched ++ [t]) (hidle : s.dispatchLoop.current = [])
    (hcurrent : s'.dispatchLoop.current = [t]) (hskips : ∀ t, ¬s'.dispatchLoop.Skips t)
    (hcount : ∀ t, s'.responseCount t = s.responseCount t) : Inv s' where
  fifo := by rw [hcompleted, hinFlight, htable, h.fifo]
  requests := by rw [htable, h.requests]
  inFlight := by rw [hinFlight, htable]; exact h.inFlight
  ids := by rw [hinFlight]; exact h.ids
  pending k t := by rw [htable, h.pending]; simp only [Session.Awaits, hinFlight]
  bounded := by rw [htable]; exact h.bounded
  dispatched := by
    have hold := h.dispatched
    rw [hidle, List.append_nil] at hold
    rw [hdispatched, hcompleted, hcurrent]
    exact hold.append (List.Sublist.refl _)
  skips t ht := absurd ht (hskips t)
  responseCount t := by rw [hcount, h.responseCount, hcompleted, htable]

lemma Inv.complete (h : Inv s) {req : Request} {response : Option Json}
    (htable : s'.table = s.table.remove (key (req.id.getD .null)))
    (hinFlight : s.inFlight = (req, t) :: s'.inFlight)
    (hcompleted : s'.completed = s.completed ++ [t]) (hdispatched : s'.dispatched = s.dispatched)
    (hcurrent : s.dispatchLoop.current = [t]) (hidle : s'.dispatchLoop.current = [])
    (hskips : ∀ t, ¬s'.dispatchLoop.Skips t) (hskipped : response = none → s.dispatchLoop.Skips t)
    (hcount : ∀ u, s'.responseCount u = s.responseCount u +
      if u = t ∧ response.isSome ∧ ¬s.table.cancelled t then 1 else 0) : Inv s' := by
  have hhead : (req, t) ∈ s.inFlight := hinFlight ▸ List.mem_cons_self
  have hsub : ∀ e ∈ s'.inFlight, e ∈ s.inFlight := fun e he =>
    hinFlight ▸ List.mem_cons_of_mem _ he
  have hflags : s'.table.flags = s.table.flags := by rw [htable]; rfl
  obtain ⟨id, hid, hvalid⟩ := h.ids _ hhead
  have hfifo : s'.completed ++ s'.inFlight.map Prod.snd = List.range s'.table.flags.length := by
    rw [hflags, ← h.fifo, hcompleted, hinFlight]
    simp
  have hopen : ∀ e ∈ s'.inFlight, e.2 ≠ t := by
    intro e he heq
    have hnodup : (s'.completed ++ s'.inFlight.map Prod.snd).Nodup := hfifo ▸ List.nodup_range
    refine (List.nodup_append.mp hnodup).2.2 t ?_ e.2 (List.mem_map_of_mem he) heq.symm
    rw [hcompleted]
    exact List.mem_append_right _ List.mem_cons_self
  have hkey : key (req.id.getD .null) = key id := by rw [hid]; rfl
  refine ⟨hfifo, ?_, ?_, fun e he => h.ids e (hsub e he), fun k u => ?_, ?_, ?_, ?_, fun u => ?_⟩
  · rw [hflags, htable]
    exact h.requests
  · intro e he
    rw [htable]
    exact h.inFlight e (hsub e he)
  · rw [htable, hkey, Table.remove]
    by_cases hk : k = key id
    · -- the freed key: no other request in flight has the id
      subst hk
      rw [AList.lookup_erase]
      simp only [reduceCtorEq, false_iff]
      rintro ⟨id', ⟨e, he, rfl, hid'⟩, hkeys⟩
      have hlookup := (h.pending (key id) e.2).mpr ⟨id', ⟨e, hsub e he, rfl, hid'⟩, hkeys⟩
      rw [(h.pending (key id) t).mpr ⟨id, ⟨_, hhead, rfl, hid⟩, rfl⟩] at hlookup
      exact hopen e he (Option.some.inj hlookup).symm
    · rw [AList.lookup_erase_ne hk, h.pending]
      constructor
      · rintro ⟨id', ⟨e, he, rfl, hid'⟩, rfl⟩
        rw [hinFlight] at he
        rcases List.mem_cons.mp he with rfl | he
        · rw [hid, Option.some.injEq] at hid'
          exact absurd (hid' ▸ rfl) hk
        · exact ⟨id', ⟨e, he, rfl, hid'⟩, rfl⟩
      · rintro ⟨id', ⟨e, he, rfl, hid'⟩, rfl⟩
        exact ⟨id', ⟨e, hsub e he, rfl, hid'⟩, rfl⟩
  · rw [htable]
    exact (List.kerase_sublist _ _).length_le.trans h.bounded
  · have hold := h.dispatched
    rw [hcurrent] at hold
    rwa [hdispatched, hcompleted, hidle, List.append_nil]
  · exact fun u hu => absurd hu (hskips u)
  · have hnew : t ∉ s.completed := h.not_completed hhead
    have hcancelled : ∀ u, s'.table.cancelled u ↔ s.table.cancelled u := fun u => by
      rw [Table.cancelled, Table.cancelled, hflags]
    have hresponse : ¬s.table.cancelled t → response.isSome = true := fun hopen => by
      cases hsome : response with
      | some _ => rfl
      | none => exact absurd (h.skips t (hskipped hsome)) hopen
    rw [hcount, h.responseCount, hcompleted, if_congr (and_congr_right fun _ =>
      not_congr (hcancelled u)) rfl rfl]
    simp only [List.mem_append, List.mem_singleton]
    by_cases hut : u = t
    · subst hut
      by_cases hc : s.table.cancelled u
      · simp [hc]
      · simp [hc, hnew, hresponse hc]
    · simp [hut]

lemma Inv.step (h : Inv s) (hstep : sessionStep isRegisteredTool maxFrameBytes s a = some s') :
    Inv s' := by
  obtain ⟨same, htable, -, -⟩ | ⟨id, hvalid, same, htable, -, -⟩ | ⟨same, htable, -⟩ |
    ⟨req, id, hid, hvalid, hfresh, hroom, htable, hinFlight, hcompleted, hdispatched, hloop, houtput, -,
      -⟩ |
    ⟨t, -, htable, hinFlight, hcompleted, hdispatched, hidle, hcurrent, hskips, hcount, -, -⟩ |
    ⟨req, t, response, htable, hinFlight, hcompleted, hdispatched, hcurrent, hidle, hskips, hskipped,
      hcount, -, -⟩ := sessionStep_effect hstep
  · exact h.of_same same (by rw [htable]) (by rw [htable]) (by rw [htable])
      (fun _ => htable ▸ .inl) fun _ => htable ▸ id
  · have hcancel := fun t => h.cancelled_cancel (t := t) hvalid
    refine h.of_same same ?_ ?_ ?_ (fun t ht => ?_) fun t ht => ?_
    · rw [htable, Table.cancel]; split <;> rfl
    · rw [htable, Table.cancel]; split <;> rfl
    · rw [htable, Table.cancel]; split <;> simp
    · rw [htable, hcancel] at ht
      exact ht.imp_right fun hawaits => ⟨id, hawaits⟩
    · rw [htable, hcancel]
      exact .inl ht
  · refine h.of_same same (by rw [htable]; rfl) (by rw [htable]; rfl) ?_ (fun t ht => ?_)
      fun t ht => ?_
    · rw [htable]
      simp [Table.cancelAll]
    · rwa [htable, h.cancelled_cancelAll] at ht
    · rw [htable, h.cancelled_cancelAll]
      exact .inl ht
  · exact h.admitted hid hvalid hfresh hroom htable hinFlight hcompleted hdispatched hloop houtput
  · exact h.dispatch htable hinFlight hcompleted hdispatched hidle hcurrent hskips hcount
  · exact h.complete htable hinFlight hcompleted hdispatched hcurrent hidle hskips hskipped hcount

/-- The invariant holds in every state of a session. -/
lemma inv_of_steps (h : Steps (sessionStep isRegisteredTool maxFrameBytes) .init s) : Inv s :=
  h.invariant inv_init fun _ _ _ hinv => hinv.step

/-! ## What follows for a session -/

/-- Which flags an action sets. -/
lemma Inv.cancelled_step (h : Inv s)
    (hstep : sessionStep isRegisteredTool maxFrameBytes s a = some s') :
    s'.table.cancelled t ↔ s.table.cancelled t ∨
      ∃ id, s.Awaits t id ∧ (s.cancels isRegisteredTool a = some id ∨ a.Fails) := by
  have hsame : s'.table.flags = s.table.flags → s.cancels isRegisteredTool a = none → ¬a.Fails →
      (s'.table.cancelled t ↔ s.table.cancelled t ∨
        ∃ id, s.Awaits t id ∧ (s.cancels isRegisteredTool a = some id ∨ a.Fails)) := by
    intro hflags hcancels hfails
    simp [Table.cancelled, hflags, hcancels, hfails]
  obtain ⟨-, htable, hcancels, hfails⟩ | ⟨id, hvalid, -, htable, hcancels, hfails⟩ |
    ⟨-, htable, hfails⟩ | ⟨req, id, -, -, -, -, htable, -, -, -, -, -, hcancels, hfails⟩ |
    ⟨u, -, htable, -, -, -, -, -, -, -, hcancels, hfails⟩ |
    ⟨req, u, response, htable, -, -, -, -, -, -, -, -, hcancels, hfails⟩ := sessionStep_effect hstep
  · exact hsame (by rw [htable]) hcancels hfails
  · rw [htable, h.cancelled_cancel hvalid, hcancels]
    refine or_congr_right ⟨fun hawaits => ⟨id, hawaits, .inl rfl⟩, ?_⟩
    rintro ⟨id', hawaits, hid | hfail⟩
    · exact Option.some.inj hid ▸ hawaits
    · exact absurd hfail hfails
  · rw [htable, h.cancelled_cancelAll]
    exact or_congr_right ⟨fun ⟨id, hawaits⟩ => ⟨id, hawaits, .inr hfails⟩,
      fun ⟨id, hawaits, _⟩ => ⟨id, hawaits⟩⟩
  · -- the new flag is not set
    rw [htable]
    simp only [Table.cancelled, Table.insert, hcancels, hfails, reduceCtorEq, or_self, and_false,
      exists_false, or_false]
    rcases lt_trichotomy t s.table.flags.length with hlt | rfl | hgt
    · rw [List.getElem?_append_left hlt]
    · simp
    · rw [List.getElem?_eq_none (by simp; omega), List.getElem?_eq_none hgt.le]
  · exact hsame (by rw [htable]) hcancels hfails
  · exact hsame (by rw [htable]; rfl) hcancels hfails

/-- A cancelled request that the loop has not reached is not dispatched by an action. -/
lemma not_dispatched_step (hstep : sessionStep isRegisteredTool maxFrameBytes s a = some s')
    (hcancelled : s.table.cancelled t) (hopen : t ∉ s.dispatched) : t ∉ s'.dispatched := by
  obtain ⟨same, -, -, -⟩ | ⟨-, -, same, -, -, -⟩ | ⟨same, -, -⟩ |
    ⟨-, -, -, -, -, -, -, -, -, hdispatched, -, -, -, -⟩ |
    ⟨u, hu, -, -, -, hdispatched, -, -, -, -, -, -⟩ |
    ⟨-, -, -, -, -, -, hdispatched, -, -, -, -, -, -, -⟩ := sessionStep_effect hstep
  · rwa [same.dispatched]
  · rwa [same.dispatched]
  · rwa [same.dispatched]
  · rwa [hdispatched]
  · rw [hdispatched, List.mem_append, List.mem_singleton]
    rintro (hmem | rfl)
    · exact hopen hmem
    · exact hu hcancelled
  · rwa [hdispatched]

lemma not_dispatched_of_steps (h : Inv s) (hcancelled : s.table.cancelled t)
    (hopen : t ∉ s.dispatched)
    (hsteps : Steps (sessionStep isRegisteredTool maxFrameBytes) s s') : t ∉ s'.dispatched := by
  refine (hsteps.invariant (P := fun u => Inv u ∧ u.table.cancelled t ∧ t ∉ u.dispatched)
    ⟨h, hcancelled, hopen⟩ ?_).2.2
  rintro u a u' ⟨hinv, hcancelled, hopen⟩ hstep
  exact ⟨hinv.step hstep, (hinv.cancelled_step hstep).mpr (.inl hcancelled),
    not_dispatched_step hstep hcancelled hopen⟩

/-! ### Rest -/

/-- What the early exits leave behind: a read error is the last message, and the requests that no
one will reach are cancelled. -/
structure Left (s : Session) : Prop where
  closed : none ∈ s.channel → s.reader = .leaving [] ∨ s.reader = .done []
  last : ∀ rest, none :: rest <:+ s.channel → rest = []
  stopped : ∀ lost, s.dispatchLoop = .stopped lost →
    ∀ e ∈ channelTickets s.channel, s.table.cancelled e.2
  done : ∀ undelivered, s.reader = .done undelivered →
    ∀ e ∈ tickets undelivered, s.table.cancelled e.2

lemma left_init : Left .init where
  closed h := by cases h
  last rest h := by cases List.suffix_nil.mp h
  stopped _ h := by cases h
  done _ h := by cases h

/-- An action of the reader that sends nothing and does not end it. -/
lemma Left.of_reader (h : Left s) (hleaving : s.reader ≠ .leaving []) (hdone : s.reader ≠ .done [])
    (hmono : ∀ t, s.table.cancelled t → s'.table.cancelled t) (hchannel : s'.channel = s.channel)
    (hloop : s'.dispatchLoop = s.dispatchLoop) (hreader : ∀ items, s'.reader ≠ .done items) :
    Left s' where
  closed hnone := absurd (h.closed (hchannel ▸ hnone)) (not_or.mpr ⟨hleaving, hdone⟩)
  last := hchannel ▸ h.last
  stopped lost hlost e he := hmono _ (h.stopped lost (hloop ▸ hlost) e (hchannel ▸ he))
  done items hitems := absurd hitems (hreader items)

/-- An action of the loop that leaves the table to the reader. -/
lemma Left.of_loop (h : Left s) (hmono : ∀ t, s.table.cancelled t → s'.table.cancelled t)
    (hreader : s'.reader = s.reader) (hchannel : s'.channel <:+ s.channel)
    (hloop : ∀ lost, s'.dispatchLoop = .stopped lost →
      ∀ e ∈ channelTickets s'.channel, s'.table.cancelled e.2) : Left s' where
  closed hnone := hreader ▸ h.closed (hchannel.subset hnone)
  last rest hrest := h.last rest (hrest.trans hchannel)
  stopped := hloop
  done items hitems e he := hmono _ (h.done items (hreader ▸ hitems) e he)

lemma Left.readerStep (hinv : Inv s) (h : Left s)
    (hmono : ∀ t, s.table.cancelled t → s'.table.cancelled t)
    (hstep : readerStep isRegisteredTool maxFrameBytes s a = some s') : Left s' := by
  unfold Mcp.readerStep at hstep
  split at hstep
  · -- a frame
    rename_i f
    split at hstep <;> [skip; cases hstep]
    rename_i hreader
    obtain rfl := Option.some.inj hstep
    refine h.of_reader (by simp [hreader]) (by simp [hreader]) hmono rfl rfl fun items => ?_
    unfold Frame.next
    split <;> simp
  · -- a read error is sent
    split at hstep <;> [skip; cases hstep]
    rename_i hreader
    obtain rfl := Option.some.inj hstep
    have hopen : none ∉ s.channel := fun hnone => absurd (h.closed hnone) (by simp [hreader])
    refine ⟨fun _ => .inl rfl, fun rest hrest => ?_, fun lost hlost e he => ?_, fun _ h => by cases h⟩
    · obtain hnil | ⟨front, hfront, hsuffix⟩ := List.suffix_concat_iff.mp hrest
      · cases hnil
      · cases front with
        | nil => exact (List.cons.inj hfront).2
        | cons message front =>
          obtain ⟨rfl, -⟩ := List.cons.inj hfront
          exact absurd (hsuffix.subset List.mem_cons_self) hopen
    · refine h.stopped lost hlost e ?_
      simpa [channelTickets] using he
  · split at hstep <;> [skip; cases hstep]
    rename_i hreader
    obtain rfl := Option.some.inj hstep
    refine ⟨fun _ => .inr rfl, h.last, h.stopped, fun items hitems e he => ?_⟩
    obtain rfl := Reader.done.inj hitems
    cases he
  · -- a value is admitted
    split at hstep <;> [skip; cases hstep]
    rename_i batch value values items hreader
    obtain rfl := Option.some.inj hstep
    exact h.of_reader (by simp [hreader]) (by simp [hreader]) hmono rfl rfl (by simp)
  · -- the frame is handed on
    split at hstep <;> [skip; cases hstep]
    rename_i batch items hreader
    obtain rfl := Option.some.inj hstep
    have hopen : none ∉ s.channel := fun hnone => absurd (h.closed hnone) (by simp [hreader])
    unfold Session.finishFrame
    split_ifs
    · exact h.of_reader (by simp [hreader]) (by simp [hreader]) (fun _ => id) rfl rfl (by simp)
    · split
      · exact h.of_reader (by simp [hreader]) (by simp [hreader]) (fun _ => id) rfl rfl (by simp)
      · split
        · exact h.of_reader (by simp [hreader]) (by simp [hreader]) (fun _ => id) rfl rfl (by simp)
        · rename_i hrunning
          have hsent : none ∉ s.channel ++ [some (⟨batch, items⟩ : Envelope)] := by simp [hopen]
          exact ⟨fun hnone => absurd hnone hsent,
            fun rest hrest => absurd (hrest.subset List.mem_cons_self) hsent,
            fun lost hlost => absurd hlost (hrunning lost), fun _ h => by cases h⟩
  · split at hstep <;> [skip; cases hstep]
    rename_i hreader
    split_ifs at hstep <;> obtain rfl := Option.some.inj hstep
    · exact h.of_reader (by simp [hreader]) (by simp [hreader]) hmono rfl rfl (by simp)
    · exact h.of_reader (by simp [hreader]) (by simp [hreader]) hmono rfl rfl (by simp)
  · -- the guard cancels what was not delivered
    split at hstep <;> [skip; cases hstep]
    rename_i undelivered hreader
    obtain rfl := Option.some.inj hstep
    refine ⟨fun hnone => ?_, h.last, fun lost hlost e he => hmono _ (h.stopped lost hlost e he),
      fun items hitems e he => ?_⟩
    · have hleaving := h.closed hnone
      simp only [hreader, Reader.leaving.injEq, reduceCtorEq, or_false] at hleaving
      exact .inr (by rw [hleaving])
    · obtain rfl := Reader.done.inj hitems
      obtain ⟨id, -, hawaits⟩ := hinv.exists_awaits (e := e)
        (List.mem_append_right _ (by rw [hreader]; exact he))
      exact hinv.cancelled_cancelAll.mpr (.inr ⟨id, hawaits⟩)
  · cases hstep

lemma Left.loopStep (hinv : Inv s) (h : Left s)
    (hmono : ∀ t, s.table.cancelled t → s'.table.cancelled t)
    (hstep : loopStep s a = some s') : Left s' := by
  unfold Mcp.loopStep at hstep
  split at hstep
  · -- an envelope, or a read error
    split at hstep <;> [skip; skip; cases hstep] <;> rename_i hloop hchannel <;>
      obtain rfl := Option.some.inj hstep
    · exact h.of_loop hmono rfl (hchannel ▸ List.suffix_cons _ _) (by simp)
    · refine h.of_loop hmono rfl (hchannel ▸ List.suffix_cons _ _) fun lost hlost e he => ?_
      have hlast : ∀ rest, s.channel = none :: rest → rest = [] := fun rest heq =>
        h.last rest (heq ▸ List.suffix_refl _)
      rw [hlast _ hchannel] at he
      cases he
  · split at hstep <;> [skip; cases hstep]
    rename_i hloop hchannel hreader
    obtain rfl := Option.some.inj hstep
    refine h.of_loop hmono rfl (List.suffix_refl _) fun lost hlost e he => ?_
    simp only [hchannel] at he
    cases he
  · split at hstep <;> [skip; skip; cases hstep]
    · obtain rfl := Option.some.inj hstep
      exact h.of_loop hmono rfl (List.suffix_refl _) (by simp)
    · split_ifs at hstep <;> obtain rfl := Option.some.inj hstep
      · exact h.of_loop hmono rfl (List.suffix_refl _) (by simp)
      · exact h.of_loop hmono rfl (List.suffix_refl _) (by simp)
  · split at hstep <;> [skip; cases hstep]
    obtain rfl := Option.some.inj hstep
    exact h.of_loop hmono rfl (List.suffix_refl _) (by simp)
  · split at hstep <;> [skip; cases hstep]
    obtain rfl := Option.some.inj hstep
    exact h.of_loop hmono rfl (List.suffix_refl _) (by simp [Session.completeRequest])
  · split at hstep <;> [skip; cases hstep]
    split_ifs at hstep <;> obtain rfl := Option.some.inj hstep
    · exact h.of_loop hmono rfl (List.suffix_refl _) (by simp)
    · exact h.of_loop hmono rfl (List.suffix_refl _) (by simp)
    · exact h.of_loop hmono rfl (List.suffix_refl _) (by simp)
  · -- the loop cancels what it will not reach
    split at hstep <;> [skip; cases hstep]
    obtain rfl := Option.some.inj hstep
    refine h.of_loop hmono rfl (List.suffix_refl _) fun lost hlost e he => ?_
    obtain ⟨id, -, hawaits⟩ := hinv.exists_awaits (e := e)
      (List.mem_append_left _ (List.mem_append_right _ he))
    exact hinv.cancelled_cancelAll.mpr (.inr ⟨id, hawaits⟩)
  · cases hstep

lemma left_of_steps (h : Steps (sessionStep isRegisteredTool maxFrameBytes) .init s) : Left s := by
  refine (h.invariant (P := fun u => Inv u ∧ Left u) ⟨inv_init, left_init⟩ ?_).2
  rintro u a u' ⟨hinv, hleft⟩ hstep
  have hmono : ∀ t, u.table.cancelled t → u'.table.cancelled t := fun t hcancelled =>
    (hinv.cancelled_step hstep).mpr (.inl hcancelled)
  refine ⟨hinv.step hstep, ?_⟩
  obtain hreader | ⟨-, hloop⟩ := Option.or_eq_some_iff.mp hstep
  · exact hleft.readerStep hinv hmono hreader
  · exact hleft.loopStep hinv hmono hloop

/-- An action the client has no part in. -/
def Action.Internal : Action → Prop
  | .frame _ => False
  | .readError => False
  | .eof => False
  | _ => True

def Reader.work : Reader → ℕ
  | .reading => 0
  | .admitting _ values items => 5 * values.length + 4 * items.length + 4
  | .answering _ _ => 2
  | .leaving _ => 1
  | .done _ => 0

def DispatchLoop.work : DispatchLoop → ℕ
  | .idle => 1
  | .serving w => 4 * w.items.length + 2
  | .working w _ _ => 4 * w.items.length + 5
  | .finishing w _ _ _ => 4 * w.items.length + 4
  | .failing _ => 1
  | .stopped _ => 0

/-- A bound on the internal actions still to come. -/
def Session.work (s : Session) : ℕ :=
  s.reader.work + s.dispatchLoop.work +
    (s.channel.map fun message => message.elim 3 fun envelope => 4 * envelope.items.length + 3).sum

/-- No action is left that the client has no part in. -/
def Session.Quiescent (isRegisteredTool : String → Bool) (maxFrameBytes : ℕ) (s : Session) : Prop :=
  ∀ a, a.Internal → sessionStep isRegisteredTool maxFrameBytes s a = none

/-- The loop has ended, or it waits and so does the reader. -/
lemma quiescent_cases (h : s.Quiescent isRegisteredTool maxFrameBytes) :
    (s.reader = .reading ∧ s.channel = [] ∧ s.dispatchLoop = .idle) ∨
    ((s.reader = .reading ∨ ∃ items, s.reader = .done items) ∧
      ∃ lost, s.dispatchLoop = .stopped lost) := by
  have hreader : s.reader = .reading ∨ ∃ items, s.reader = .done items := by
    cases hr : s.reader with
    | reading => exact .inl rfl
    | admitting batch values items =>
      cases values with
      | nil => simpa [sessionStep, readerStep, hr, loopStep] using h .finish trivial
      | cons v values => simpa [sessionStep, readerStep, hr, loopStep] using h .admitNext trivial
    | answering batch replies =>
      simpa [sessionStep, readerStep, hr, loopStep] using h (.answer true) trivial
    | leaving items => simpa [sessionStep, readerStep, hr, loopStep] using h .leave trivial
    | done items => exact .inr ⟨items, rfl⟩
  cases hl : s.dispatchLoop with
  | stopped lost => exact .inr ⟨hreader, lost, rfl⟩
  | idle =>
    cases hc : s.channel with
    | nil =>
      obtain hreading | ⟨items, hdone⟩ := hreader
      · exact .inl ⟨hreading, rfl, rfl⟩
      · simpa [sessionStep, readerStep, loopStep, hl, hc, hdone] using h .close trivial
    | cons message channel =>
      cases message <;>
        simpa [sessionStep, readerStep, loopStep, hl, hc] using h .receive trivial
  | serving w =>
    obtain ⟨batch, items, responses⟩ := w
    cases items with
    | nil =>
      have hwrite := h (.write true) trivial
      simp only [sessionStep, readerStep, loopStep, hl, Option.none_or] at hwrite
      split_ifs at hwrite
    | cons item items =>
      have hreach := h .reach trivial
      cases item with
      | reply value => simp [sessionStep, readerStep, loopStep, hl] at hreach
      | dispatch req t =>
        simp only [sessionStep, readerStep, loopStep, hl, Option.none_or] at hreach
        split_ifs at hreach
  | working w req t =>
    simpa [sessionStep, readerStep, loopStep, hl] using h (.returned .null) trivial
  | finishing w req t response =>
    simpa [sessionStep, readerStep, loopStep, hl] using h .complete trivial
  | failing lost => simpa [sessionStep, readerStep, loopStep, hl] using h .abort trivial

/-- Once nothing is left to do, every admitted request is completed or cancelled. -/
lemma completed_or_cancelled (hinv : Inv s) (hleft : Left s)
    (h : s.Quiescent isRegisteredTool maxFrameBytes) (ht : t < s.table.flags.length) :
    t ∈ s.completed ∨ s.table.cancelled t := by
  refine or_iff_not_imp_left.mpr fun hopen => ?_
  obtain ⟨e, he, rfl⟩ := hinv.exists_inFlight ht hopen
  obtain ⟨hreader, hchannel, hloop⟩ | ⟨hreader, lost, hloop⟩ := quiescent_cases h
  · simp [Session.inFlight, hreader, hchannel, hloop, DispatchLoop.inFlight, channelTickets,
      Reader.items, tickets] at he
  · have hnone : s.dispatchLoop.inFlight = [] := by rw [hloop]; rfl
    rw [Session.inFlight, hnone, List.nil_append, List.mem_append] at he
    obtain he | he := he
    · exact hleft.stopped lost hloop e he
    · obtain hreading | ⟨items, hdone⟩ := hreader
      · rw [hreading] at he
        cases he
      · rw [hdone] at he
        exact hleft.done items hdone e he

/-- Internal actions use up the work. -/
lemma work_decreases (ha : a.Internal)
    (hstep : sessionStep isRegisteredTool maxFrameBytes s a = some s') : s'.work < s.work := by
  obtain ⟨table, reader, channel, l, output, dispatched, completed⟩ := s
  rw [sessionStep, Option.or_eq_some_iff] at hstep
  obtain hstep | ⟨-, hstep⟩ := hstep
  · unfold readerStep at hstep
    split at hstep
    · exact absurd ha id
    · exact absurd ha id
    · exact absurd ha id
    · dsimp only at hstep
      split at hstep <;> [skip; cases hstep]
      rename_i batch value values items
      obtain rfl := Option.some.inj hstep
      have hitem := Option.length_toList_le (o := (admitValue isRegisteredTool table value).2)
      simp only [Session.work, Reader.work, List.length_append, List.length_cons]
      omega
    · dsimp only at hstep
      split at hstep <;> [skip; cases hstep]
      obtain rfl := Option.some.inj hstep
      unfold Session.finishFrame
      split_ifs
      · simp [Session.work, Reader.work]
      · split
        · simp [Session.work, Reader.work]
        · split
          · simp [Session.work, Reader.work]
          · simp [Session.work, Reader.work]
            omega
    · dsimp only at hstep
      split at hstep <;> [skip; cases hstep]
      split_ifs at hstep <;> obtain rfl := Option.some.inj hstep <;> simp [Session.work, Reader.work]
    · dsimp only at hstep
      split at hstep <;> [skip; cases hstep]
      obtain rfl := Option.some.inj hstep
      simp [Session.work, Reader.work]
    · cases hstep
  · unfold loopStep at hstep
    split at hstep
    · dsimp only at hstep
      split at hstep <;> [skip; skip; cases hstep] <;> obtain rfl := Option.some.inj hstep <;>
        simp [Session.work, DispatchLoop.work] <;> omega
    · dsimp only at hstep
      split at hstep <;> [skip; cases hstep]
      obtain rfl := Option.some.inj hstep
      simp [Session.work, DispatchLoop.work, Reader.work]
    · dsimp only at hstep
      split at hstep <;> [skip; skip; cases hstep]
      · obtain rfl := Option.some.inj hstep
        simp [Session.work, DispatchLoop.work]
      · split_ifs at hstep <;> obtain rfl := Option.some.inj hstep <;>
          simp [Session.work, DispatchLoop.work] <;> omega
    · dsimp only at hstep
      split at hstep <;> [skip; cases hstep]
      obtain rfl := Option.some.inj hstep
      simp [Session.work, DispatchLoop.work]
    · dsimp only at hstep
      split at hstep <;> [skip; cases hstep]
      obtain rfl := Option.some.inj hstep
      simp [Session.work, Session.completeRequest, DispatchLoop.work]
    · dsimp only at hstep
      split at hstep <;> [skip; cases hstep]
      split_ifs at hstep <;> obtain rfl := Option.some.inj hstep <;>
        simp [Session.work, DispatchLoop.work]
    · dsimp only at hstep
      split at hstep <;> [skip; cases hstep]
      obtain rfl := Option.some.inj hstep
      simp [Session.work, DispatchLoop.work]
    · cases hstep

/-- The table holds the admitted requests that are not completed. -/
lemma Inv.pending_iff (h : Inv s) : s.table.pending.lookup k = some t ↔
    t < s.table.flags.length ∧ t ∉ s.completed ∧
      ∃ req id, s.table.requests[t]? = some req ∧ req.id = some id ∧ key id = k := by
  rw [h.pending]
  constructor
  · rintro ⟨id, ⟨e, he, rfl, hid⟩, hkey⟩
    exact ⟨h.ticket_lt he, h.not_completed he, e.1, id, h.inFlight e he, hid, hkey⟩
  · rintro ⟨ht, hopen, req, id, hreq, hid, hkey⟩
    obtain ⟨e, he, rfl⟩ := h.exists_inFlight ht hopen
    obtain rfl : e.1 = req := Option.some.inj ((h.inFlight e he).symm.trans hreq)
    exact ⟨id, ⟨e, he, rfl, hid⟩, hkey⟩

/-- **The session protocol.**  In every state of every run: requests are dispatched at most once
and in the order of admission; a cancelled request that the loop has not reached stays undispatched;
a completed request has one response, none if it was cancelled, and the others have none; the table
holds the admitted requests that are not completed, at most 128.  A flag is set by a valid
cancellation of a request in flight that has the id, or by an early exit.  Without the client the
session comes to rest, and then every admitted request is completed or cancelled. -/
theorem session_protocol (isRegisteredTool : String → Bool) (maxFrameBytes : ℕ) (s : Session)
    (h : Steps (sessionStep isRegisteredTool maxFrameBytes) .init s) :
    s.dispatched.Sublist (List.range s.table.flags.length) ∧
    (∀ t, s.table.cancelled t → t ∉ s.completed → t ∉ s.dispatchLoop.current →
      ∀ s', Steps (sessionStep isRegisteredTool maxFrameBytes) s s' → t ∉ s'.dispatched) ∧
    (∀ t, s.responseCount t = if t ∈ s.completed ∧ ¬s.table.cancelled t then 1 else 0) ∧
    (∀ k t, s.table.pending.lookup k = some t ↔ t < s.table.flags.length ∧ t ∉ s.completed ∧
      ∃ req id, s.table.requests[t]? = some req ∧ req.id = some id ∧ key id = k) ∧
    s.table.pending.entries.length ≤ maxPendingRequests ∧
    (∀ a s', sessionStep isRegisteredTool maxFrameBytes s a = some s' →
      ∀ t, s'.table.cancelled t ↔ s.table.cancelled t ∨
        ∃ id, s.Awaits t id ∧ (s.cancels isRegisteredTool a = some id ∨ a.Fails)) ∧
    (s.Quiescent isRegisteredTool maxFrameBytes →
      ∀ t < s.table.flags.length, t ∈ s.completed ∨ s.table.cancelled t) ∧
    (∀ a s', a.Internal → sessionStep isRegisteredTool maxFrameBytes s a = some s' →
      s'.work < s.work) := by
  have hinv := inv_of_steps h
  have hreached : s.dispatched.Sublist (s.completed ++ s.inFlight.map Prod.snd) := by
    refine hinv.dispatched.trans ((List.Sublist.refl _).append ?_)
    cases hloop : s.dispatchLoop <;>
      simp [Session.inFlight, hloop, DispatchLoop.current, DispatchLoop.inFlight]
  refine ⟨hinv.fifo ▸ hreached, fun t hcancelled hdone hcurrent s' => ?_, hinv.responseCount,
    fun k t => hinv.pending_iff, hinv.bounded, fun a s' hstep t => hinv.cancelled_step hstep,
    fun hquiet t => completed_or_cancelled hinv (left_of_steps h) hquiet,
    fun a s' ha => work_decreases ha⟩
  refine not_dispatched_of_steps hinv hcancelled fun hmem => ?_
  exact (List.mem_append.mp (hinv.dispatched.subset hmem)).elim hdone hcurrent

/-- Two requests whose ids have the same digits, and a cancellation of the first, in one batch. -/
def cancelledBatch : List Action :=
  [.frame (.value (.arr
    [.obj [("jsonrpc", .str "2.0"), ("id", .num (.int 7)), ("method", .str "tools/list")],
      .obj [("jsonrpc", .str "2.0"), ("id", .str "7"), ("method", .str "tools/list")],
      .obj [("jsonrpc", .str "2.0"), ("method", .str "notifications/cancelled"),
        ("params", .obj [("requestId", .num (.int 7))])]])),
    .admitNext, .admitNext, .admitNext, .finish, .receive, .reach, .complete, .reach, .returned .null,
    .complete, .write true]

theorem session_protocol_cancelledBatch :
    ∃ s, run (sessionStep (fun _ => false) 1024) .init cancelledBatch = some s ∧
      s.dispatched = [1] ∧ s.responseCount 0 = 0 ∧ s.responseCount 1 = 1 := by
  have hview : (run (sessionStep (fun _ => false) 1024) .init cancelledBatch).map
      (fun s => (s.dispatched, s.completed, s.table.flags)) =
        some ([1], [0, 1], [true, false]) := by decide +kernel
  obtain ⟨s, hrun, heq⟩ := Option.map_eq_some_iff.mp hview
  obtain ⟨hdispatched, hcompleted, hflags⟩ : s.dispatched = [1] ∧ s.completed = [0, 1] ∧
      s.table.flags = [true, false] := by simpa using heq
  obtain ⟨-, -, hcount, -⟩ := session_protocol (fun _ => false) 1024 s (steps_of_run hrun)
  refine ⟨s, hrun, hdispatched, ?_, ?_⟩
  · simp [hcount, hcompleted, Table.cancelled, hflags]
  · simp [hcount, hcompleted, Table.cancelled, hflags]

end Mcp
end NestWeaver
