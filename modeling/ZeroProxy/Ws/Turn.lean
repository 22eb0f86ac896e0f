import ZeroProxy.Ws.Client

/-!
# The turns of a close

The caller, the reader task and the writer task share a queue and the flags of a close, and take
their steps in any order. What one step can do to them is said once here.
-/

namespace ZeroProxy.Ws

open Bytes Http Text Reader

/-! ## What is seen of a step -/

def sentFrames (events : List Event) : List OutMsg :=
  events.filterMap fun
    | .sent m _ => some m
    | _ => none

def acceptedData (events : List Event) : List Message :=
  events.filterMap fun
    | .queued (.data m) => some m
    | _ => none

def closeCalls (events : List Event) : List (Nat × Text) :=
  events.filterMap fun
    | .close code reason => some (code, reason)
    | _ => none

namespace Client

variable (c : Client)

/-- The valid Close of the peer that a step receives. -/
def hears : Action → Option (Nat × Text)
  | .read =>
    if !c.reader.running || c.shared.closed then none
    else match readFrame.run c.reader.conn with
    | .ok f _ => if f.op = .close then (decodeClosePayload f.payload).toOption else none
    | _ => none
  | _ => none

/-- A step after which the frame that the writer task writes has gone out. -/
def flushes : Action → Bool
  | .wrote ok =>
    match c.writer with
    | .writing => ok && !c.shared.closed
    | _ => false
  | _ => false

/-- The caller ends the connection: with `abort`, or with a `close` that is refused. -/
def severs : Action → Bool
  | .abort => !c.shared.closed
  | .close code reason =>
    !c.shared.closed && (!Shared.isLocalCloseCode (code.getD 1000) ||
      decide (123 < (utf8 (reason.getD [])).length))
  | _ => false

end Client

def Action.installs : Action → Bool
  | .setHandlers (some h) => h.close
  | _ => false

/-- What is seen of a step. -/
structure Trace where
  sent : List OutMsg
  accepted : List Message
  calls : List (Nat × Text)
  heard : Option (Nat × Text)
  flushed : Bool
  severed : Bool
  installs : Bool

open Trace

/-- What is seen of a step that causes these events. -/
def Trace.of (events : List Event) (heard : Option (Nat × Text)) (flushed severed installs : Bool) :
    Trace where
  sent := sentFrames events
  accepted := acceptedData events
  calls := closeCalls events
  heard := heard
  flushed := flushed
  severed := severed
  installs := installs

def Client.trace (c : Client) (a : Action) : Trace :=
  .of (c.step a).2 (c.hears a) (c.flushes a) (c.severs a) a.installs

/-! ## The turns of a close -/

/-- The part of a client that a close depends on. -/
structure View where
  queue : List OutMsg
  /-- A Close is queued, or was. -/
  isSealed : Bool
  /-- The Close of the peer, until the writer task takes it. -/
  peer : Option (Nat × Text)
  /-- What the connection ended with. -/
  ended : Option (Nat × Text)
  writer : WriterTask
  reading : Bool
  /-- A close handler is installed. -/
  listening : Bool

def Shared.ended (s : Shared) : Option (Nat × Text) :=
  if s.closed then some (s.closeCode, s.closeReason) else none

open Shared

/-- What a close depends on. -/
def Client.view (c : Client) : View where
  queue := c.shared.queue
  isSealed := c.shared.closedLocal
  peer := c.shared.peerClose
  ended := c.shared.ended
  writer := c.writer
  reading := c.reader.running
  listening := c.shared.handlers.close

def Trace.silent : Trace := ⟨[], [], [], none, false, false, false⟩

/-- What `surface_close` reports. -/
def View.reports (v : View) (k : Nat × Text) : List (Nat × Text) := if v.listening then [k] else []

def abnormal : Nat × Text := (1006, [])

open Trace (silent)

/-- What one step can do. -/
inductive Turn (v : View) : Trace → View → Prop
  /-- Nothing that a close depends on. -/
  | quiet : Turn v silent v
  /-- The reader task finds that the connection has ended. -/
  | stopRead (hended : v.ended ≠ none) : Turn v silent { v with reading := false }
  /-- The writer task does. -/
  | stopWrite (hended : v.ended ≠ none) : Turn v silent { v with writer := .done }
  /-- A message or a Pong is queued. -/
  | accept (m : OutMsg) (data : List Message) (hopen : v.ended = none) (hseal : v.isSealed = false)
      (hm : m.isClose = false) :
    Turn v { silent with accepted := data } { v with queue := v.queue ++ [m] }
  /-- A Close is queued by the caller. -/
  | sealed (payload : Bytes) (hopen : v.ended = none) (hseal : v.isSealed = false) :
    Turn v silent { v with isSealed := true, queue := v.queue ++ [.close payload] }
  /-- The Close of the peer is received. -/
  | hear (peer : Nat × Text) (payload : Bytes) (hopen : v.ended = none) (hread : v.reading)
      (hpeer : peer.1 ≠ 1006) :
    Turn v { silent with heard := some peer }
      { v with
        reading := false, peer := some peer, isSealed := true,
        queue := v.queue.filter OutMsg.isClose ++ if v.isSealed then [] else [.close payload] }
  /-- The writer task takes a message. -/
  | emit (m : OutMsg) (queue : List OutMsg) (hopen : v.ended = none) (hwriter : v.writer = .idle)
      (hqueue : v.queue = m :: queue) :
    Turn v { silent with sent := [m] } { v with queue, writer := .writing }
  /-- What the writer task wrote has gone out. -/
  | flush (hopen : v.ended = none) (hwriter : v.writer = .writing) :
    Turn v { silent with flushed := true } { v with writer := .idle }
  /-- The writer task has nothing more to write. -/
  | finish (peer : Nat × Text) (hopen : v.ended = none) (hwriter : v.writer = .idle)
      (hqueue : v.queue = []) (hpeer : v.peer = some peer) :
    Turn v silent { v with peer := none, writer := .closing peer }
  /-- The writer task reports the Close of the peer. -/
  | report (peer : Nat × Text) (hopen : v.ended = none) (hwriter : v.writer = .closing peer) :
    Turn v { silent with calls := v.reports peer }
      { v with ended := some peer, queue := [], writer := .done }
  /-- The caller ends the connection. -/
  | sever (hopen : v.ended = none) :
    Turn v { silent with calls := v.reports abnormal, severed := true }
      { v with ended := some abnormal, queue := [] }
  /-- The reader task ends the connection. -/
  | failRead (reading : Bool) (hopen : v.ended = none) (hread : v.reading) :
    Turn v { silent with calls := v.reports abnormal }
      { v with ended := some abnormal, queue := [], reading }
  /-- The writer task ends the connection: a message cannot be encoded, or not be written. -/
  | failWrite (hopen : v.ended = none)
      (hwriter : v.writer = .writing ∨ v.writer = .idle ∧ v.queue ≠ []) :
    Turn v { silent with calls := v.reports abnormal }
      { v with ended := some abnormal, queue := [], writer := .done }
  /-- Handlers are installed; a close handler is told what it missed. -/
  | install (b : Bool) :
    Turn v { silent with calls := if b then v.ended.toList else [], installs := b }
      { v with listening := b }

open Turn

/-! ## The steps of the client are turns -/

theorem ended_eq_none {s : Shared} : s.ended = none ↔ s.closed = false := by
  cases hs : s.closed <;> simp [ended, hs]

theorem ended_ne_none {s : Shared} (h : s.closed) : s.ended ≠ none := by
  rw [Ne, ended_eq_none, h]
  exact Bool.noConfusion

theorem peer_ne_abnormal {payload : Bytes} {peer : Nat × Text}
    (h : decodeClosePayload payload = .ok peer) : peer.1 ≠ 1006 := by
  match payload with
  | [] =>
    cases h
    decide
  | [_] => cases h
  | b0 :: b1 :: reason =>
    rw [decodeClosePayload] at h
    split_ifs at h with hcode
    cases ht : fromUtf8 reason with
    | none => rw [ht] at h; cases h
    | some t =>
      rw [ht] at h
      cases h
      intro h1006
      dsimp only at h1006
      rw [h1006] at hcode
      exact hcode rfl

theorem Turn.of_eq {v v' v'' : View} {t t' : Trace} (h : Turn v t v') (ht : t' = t) (hv : v'' = v') :
    Turn v t' v'' := by
  rw [ht, hv]
  exact h

theorem Trace.of_ending (s : Shared) (k : Nat × Text) (error : List Event)
    (herror : error = [] ∨ ∃ e, error = [.error e]) (severed : Bool) :
    of (error ++ if s.handlers.close then [.close k.1 k.2] else []) none false severed false =
      { silent with calls := if s.handlers.close then [k] else [], severed } := by
  rcases herror with rfl | ⟨e, rfl⟩ <;> cases s.handlers.close <;> rfl

/-- The state that `surface_close` leaves. -/
def Shared.finished (s : Shared) (k : Nat × Text) : Shared :=
  { s with closed := true, closeCode := k.1, closeReason := k.2, queue := [], buffered := 0 }

theorem surfaceClose_of_open {s : Shared} (hopen : s.closed = false) (k : Nat × Text) :
    s.surfaceClose k.1 k.2 =
      (s.finished k, [] ++ if s.handlers.close then [.close k.1 k.2] else []) := by
  rw [surfaceClose, hopen]
  rfl

theorem failConnection_of_open {s : Shared} (hopen : s.closed = false) (e : Text) :
    ∃ error : List Event, (error = [] ∨ ∃ e, error = [.error e]) ∧
      s.failConnection e =
        (s.finished abnormal, error ++ if s.handlers.close then [.close 1006 []] else []) := by
  refine ⟨if s.handlers.error then [.error e] else [], ?_, ?_⟩
  · cases s.handlers.error
    · exact .inl rfl
    · exact .inr ⟨e, rfl⟩
  · have hclose : s.surfaceClose 1006 [] = _ := surfaceClose_of_open hopen abnormal
    rw [failConnection, hopen, hclose]
    rfl

namespace Client

variable {c : Client}

theorem turn_failRead (hopen : c.shared.closed = false) (hread : c.reader.running)
    (r : Reader) (e : Text) :
    Turn c.view (.of (c.shared.failConnection e).2 none false false false)
      (view { c with reader := r, shared := (c.shared.failConnection e).1 }) := by
  obtain ⟨error, herror, hfail⟩ := failConnection_of_open hopen e
  rw [hfail]
  exact (failRead r.running (ended_eq_none.2 hopen) hread).of_eq
    (of_ending c.shared abnormal error herror false) rfl

theorem turn_deliver (hopen : c.shared.closed = false) (hread : c.reader.running)
    (r : Reader) (hr : r.running = c.reader.running) (op : Opcode) (payload : Bytes) :
    Turn c.view (.of (c.shared.deliverMessage op payload).2 none false false false)
      (view { c with reader := r, shared := (c.shared.deliverMessage op payload).1 }) := by
  have hquiet (events : List Event) (hnone : of events none false false false = silent) :
      Turn c.view (.of events none false false false) (view { c with reader := r }) := by
    refine quiet.of_eq hnone ?_
    rw [view, hr]
    rfl
  unfold deliverMessage
  split_ifs
  · exact hquiet _ rfl
  cases op with
  | text =>
    cases fromUtf8 payload with
    | none => exact turn_failRead hopen hread r _
    | some t => exact hquiet _ rfl
  | binary | continuation | close | ping | pong => exact hquiet _ rfl

/-- What the reader task does with a frame. -/
theorem turn_onFrame (hopen : c.shared.closed = false) (hread : c.reader.running)
    (r : Reader) (hr : r.running = c.reader.running) (f : Frame) :
    Turn c.view (.of (r.onFrame c.shared f).2.2
        (if f.op = .close then (decodeClosePayload f.payload).toOption else none) false false false)
      (view { c with reader := (r.onFrame c.shared f).1, shared := (r.onFrame c.shared f).2.1 }) := by
  have hquiet (r' : Reader) (hr' : r'.running = r.running) :
      Turn c.view (.of [] none false false false) (view { c with reader := r' }) := by
    refine quiet.of_eq rfl ?_
    rw [view, hr', hr]
    rfl
  have hstart (hop : f.op = .text ∨ f.op = .binary) :
      Turn c.view (.of (r.onFrame c.shared f).2.2 none false false false)
        (view { c with
          reader := (r.onFrame c.shared f).1, shared := (r.onFrame c.shared f).2.1 }) := by
    rw [onFrame_data hop]
    split_ifs
    · exact turn_failRead hopen hread _ _
    · exact turn_failRead hopen hread _ _
    · exact turn_deliver hopen hread r hr _ _
    · exact hquiet _ rfl
  cases hop : f.op with
  | text =>
    exact hstart (.inl hop)
  | binary =>
    exact hstart (.inr hop)
  | continuation =>
    rw [if_neg (by decide), onFrame, hop]
    cases r.fragOp with
    | none => exact turn_failRead hopen hread _ _
    | some op =>
      dsimp only
      split_ifs
      · exact turn_failRead hopen hread _ _
      · exact turn_deliver hopen hread _ hr _ _
      · exact hquiet _ rfl
  | ping =>
    rw [if_neg (by decide), onFrame, hop]
    dsimp only
    split_ifs with hseal
    · exact hquiet r rfl
    · refine (accept (.pong f.payload) [] (ended_eq_none.2 hopen)
        (Bool.eq_false_iff.2 hseal) rfl).of_eq rfl ?_
      rw [view, hr]
      rfl
  | pong =>
    rw [onFrame, hop]
    exact hquiet r rfl
  | close =>
    rw [if_pos rfl, onFrame, hop]
    cases hdecode : decodeClosePayload f.payload with
    | error e => exact turn_failRead hopen hread _ _
    | ok peer =>
      refine (hear peer f.payload (ended_eq_none.2 hopen) hread
        (peer_ne_abnormal hdecode)).of_eq ?_ ?_
      · dsimp only
        split_ifs <;> rfl
      · by_cases hseal : c.shared.closedLocal
        · simp [view, hseal, ended]
        · simp [view, hseal, ended, push]

variable (c : Client)

theorem turn_read : Turn c.view (c.trace .read) (c.step .read).1.view := by
  change Turn c.view (.of (c.reader.step c.shared).2.2 (c.hears .read) false false false)
    (view { c with reader := (c.reader.step c.shared).1, shared := (c.reader.step c.shared).2.1 })
  by_cases hread : c.reader.running
  · by_cases hclosed : c.shared.closed
    · have hstep : c.reader.step c.shared = ({ c.reader with running := false }, c.shared, []) := by
        rw [Reader.step, hread, if_neg (by decide), if_pos hclosed]
      have hhears : c.hears .read = none := by rw [hears, hclosed, Bool.or_true, if_pos rfl]
      rw [hstep, hhears]
      exact stopRead (@ended_ne_none c.shared hclosed)
    have hopen := Bool.eq_false_iff.2 hclosed
    have hhears : c.hears .read = match readFrame.run c.reader.conn with
        | .ok f _ => if f.op = .close then (decodeClosePayload f.payload).toOption else none
        | _ => none := by
      rw [hears, hread, hopen]
      rfl
    rw [step_of_running hread hclosed, hhears]
    cases readFrame.run c.reader.conn with
    | ok f conn => exact turn_onFrame hopen hread { c.reader with conn } rfl f
    | error _ => exact turn_failRead hopen hread _ _
    | cut tail =>
      cases tail with
      | quiet => exact quiet
      | closed | broken => exact turn_failRead hopen hread _ _
  · have hstep : c.reader.step c.shared = (c.reader, c.shared, []) := by
      rw [Reader.step, Bool.eq_false_iff.2 hread, Bool.not_false, if_pos rfl]
    have hhears : c.hears .read = none := by
      rw [hears, Bool.eq_false_iff.2 hread, Bool.not_false, Bool.true_or, if_pos rfl]
    rw [hstep, hhears]
    exact quiet

theorem turn_poll (key : Except Text Bytes) :
    Turn c.view (c.trace (.poll key)) (c.step (.poll key)).1.view := by
  change Turn c.view (.of (c.poll key).2 none false false false) (c.poll key).1.view
  rw [poll]
  cases hwriter : c.writer with
  | writing | closing _ | done => exact quiet
  | idle =>
    dsimp only
    split_ifs with hclosed
    · exact stopWrite (@ended_ne_none c.shared hclosed)
    have hopen := Bool.eq_false_iff.2 hclosed
    cases hqueue : c.shared.queue with
    | nil =>
      cases hpeer : c.shared.peerClose with
      | none => exact quiet
      | some peer =>
        refine (finish (v := c.view) peer (ended_eq_none.2 hopen) hwriter hqueue hpeer).of_eq
          rfl ?_
        rw [show c.view.queue = [] from hqueue]
        rfl
    | cons m queue =>
      dsimp only
      cases encodeFrame key m.op m.payload with
      | ok frame => exact emit m queue (ended_eq_none.2 hopen) hwriter hqueue
      | error e =>
        dsimp only
        obtain ⟨error, herror, hfail⟩ :=
          @failConnection_of_open { c.shared with queue } hopen e
        rw [hfail]
        refine (failWrite (ended_eq_none.2 hopen) (.inr ⟨hwriter, ?_⟩)).of_eq
          (of_ending c.shared abnormal error herror false) rfl
        rw [view, hqueue]
        exact List.cons_ne_nil m queue

theorem turn_wrote (ok : Bool) : Turn c.view (c.trace (.wrote ok)) (c.step (.wrote ok)).1.view := by
  change Turn c.view (.of (c.wrote ok).2 none (c.flushes (.wrote ok)) false false) (c.wrote ok).1.view
  rw [wrote, flushes]
  cases hwriter : c.writer with
  | idle | closing _ | done => exact quiet
  | writing =>
    split_ifs with hclosed hok
    · rw [hclosed, Bool.not_true, Bool.and_false]
      exact stopWrite (@ended_ne_none c.shared hclosed)
    · rw [hok, Bool.eq_false_iff.2 hclosed]
      exact flush (ended_eq_none.2 (Bool.eq_false_iff.2 hclosed)) hwriter
    · have hopen := Bool.eq_false_iff.2 hclosed
      obtain ⟨error, herror, hfail⟩ := failConnection_of_open hopen "WebSocket frame write failed"
      rw [hfail, Bool.eq_false_iff.2 hok]
      exact (failWrite (ended_eq_none.2 hopen) (.inl hwriter)).of_eq
        (of_ending c.shared abnormal error herror false) rfl

theorem turn_shut : Turn c.view (c.trace .shut) (c.step .shut).1.view := by
  change Turn c.view (.of c.shut.2 none false false false) c.shut.1.view
  rw [shut.eq_def]
  cases hwriter : c.writer with
  | idle | writing | done => exact quiet
  | closing peer =>
    dsimp only
    by_cases hclosed : c.shared.closed
    · rw [surfaceClose, if_pos hclosed]
      exact stopWrite (@ended_ne_none c.shared hclosed)
    · have hopen := Bool.eq_false_iff.2 hclosed
      rw [surfaceClose_of_open hopen]
      exact (report peer (ended_eq_none.2 hopen) hwriter).of_eq
        (of_ending c.shared peer [] (.inl rfl) false) rfl

theorem turn_setHandlers (handlers : Option Handlers) :
    Turn c.view (c.trace (.setHandlers handlers)) (c.step (.setHandlers handlers)).1.view := by
  cases handlers with
  | none => exact quiet
  | some h =>
    obtain ⟨message, close, error⟩ := h
    refine (Turn.install close).of_eq ?_ rfl
    change of (if c.shared.closed && close then
        [.close c.shared.closeCode c.shared.closeReason] else []) none false false close =
      { silent with calls := if close then c.shared.ended.toList else [], installs := close }
    rw [ended]
    cases c.shared.closed <;> cases close <;> rfl

theorem turn_send (data : Option Message) :
    Turn c.view (c.trace (.send data)) (c.step (.send data)).1.view := by
  change Turn c.view (.of (c.shared.send data).2 none false false false)
    (view { c with shared := (c.shared.send data).1 })
  rw [send.eq_def]
  split_ifs with hclosed
  · exact quiet
  rw [Bool.or_eq_true, not_or] at hclosed
  cases data with
  | none => exact quiet
  | some m =>
    exact accept (.data m) [m] (ended_eq_none.2 (Bool.eq_false_iff.2 hclosed.1))
      (Bool.eq_false_iff.2 hclosed.2) rfl

theorem turn_close (code : Option Nat) (reason : Option Text) :
    Turn c.view (c.trace (.close code reason)) (c.step (.close code reason)).1.view := by
  change Turn c.view (.of (c.shared.close code reason).2 none false
      (c.severs (.close code reason)) false)
    (view { c with shared := (c.shared.close code reason).1 })
  rw [close, severs]
  dsimp only
  split_ifs with hclosed hrefused hseal
  · rw [hclosed, Bool.not_true]
    exact quiet
  · have hopen := Bool.eq_false_iff.2 hclosed
    obtain ⟨error, herror, hfail⟩ :=
      failConnection_of_open hopen "invalid local close code or reason"
    rw [hfail, hopen, hrefused]
    exact (sever (ended_eq_none.2 hopen)).of_eq
      (of_ending c.shared abnormal error herror true) rfl
  · rw [Bool.eq_false_iff.2 hrefused, Bool.and_false]
    exact quiet
  · rw [Bool.eq_false_iff.2 hrefused, Bool.and_false]
    exact sealed _ (ended_eq_none.2 (Bool.eq_false_iff.2 hclosed)) (Bool.eq_false_iff.2 hseal)

theorem turn_abort : Turn c.view (c.trace .abort) (c.step .abort).1.view := by
  change Turn c.view (.of (c.shared.surfaceClose 1006 []).2 none false (!c.shared.closed) false)
    (view { c with shared := (c.shared.surfaceClose 1006 []).1 })
  by_cases hclosed : c.shared.closed
  · rw [surfaceClose, hclosed]
    exact quiet
  · have hopen := Bool.eq_false_iff.2 hclosed
    have hclose : c.shared.surfaceClose 1006 [] = _ := surfaceClose_of_open hopen abnormal
    rw [hclose, hopen]
    exact (sever (ended_eq_none.2 hopen)).of_eq
      (of_ending c.shared abnormal [] (.inl rfl) true) rfl

theorem turn_step (a : Action) : Turn c.view (c.trace a) (c.step a).1.view := by
  cases a with
  | read => exact c.turn_read
  | poll key => exact c.turn_poll key
  | wrote ok => exact c.turn_wrote ok
  | shut => exact c.turn_shut
  | setHandlers handlers => exact c.turn_setHandlers handlers
  | send data => exact c.turn_send data
  | close code reason => exact c.turn_close code reason
  | abort => exact c.turn_abort

end Client

end ZeroProxy.Ws
