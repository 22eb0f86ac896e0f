import ZeroProxy.Bytes.Source
import ZeroProxy.Machine.Run
import ZeroProxy.Text.Basic

/-!
# The page's WebSocket

The `WebSocket` of a page is an object of the runtime. It asks the worker for a stream and talks
to it through a message port, and it turns what happens into the events of a `WebSocket`. The
page's calls, the reply to the opening, the messages of the port, the reads of Blobs and one timer
take turns.
-/

namespace ZeroProxy.Membrane.WebSocket

open Bytes Machine Text

/-! ## The socket -/

/-- `readyState` of a socket. -/
inductive ReadyState
  | connecting
  | opened
  | closing
  | closed
  deriving DecidableEq

/-- The number that the page sees. -/
def ReadyState.toNat : ReadyState → Nat
  | connecting => 0
  | opened => 1
  | closing => 2
  | closed => 3

/-- `binaryType` of a socket. -/
inductive BinaryType
  | blob
  | arraybuffer
  deriving DecidableEq

/-- What is sent and received. -/
inductive Payload
  | text (s : Text)
  | buffer (b : List UInt8)
  | blob (b : List UInt8)
  deriving DecidableEq

/-- The size of what is sent. -/
def payloadByteLength : Payload → Nat
  | .text s => (utf8 s).length
  | .buffer b => b.length
  | .blob b => b.length

/-- What is posted for it: the bytes of a Blob. -/
def Payload.content : Payload → Payload
  | .text s => .text s
  | .buffer b => .buffer b
  | .blob b => .buffer b

/-- A message to the worker. `call` numbers the calls of `send`. -/
inductive Post
  | send (call : Nat) (data : Payload) (bytes : Nat)
  | close (code : Int) (reason : Text)
  | abort
  deriving DecidableEq

/-- A message on the port, from the kernel. -/
inductive PortMessage
  | message (data : Payload)
  | error
  | close (code : Int) (reason : Text)
  | senddrained (bytes : Nat)

/-- What the bridge replies to the constructor. -/
inductive Reply
  | rejected
  | resolved (port : Bool) (protocol : Text)

/-- An event that is dispatched to the page. -/
inductive Event
  | opened
  | message (data : Payload)
  | error
  | close (code : Int) (reason : Text) (wasClean : Bool)
  deriving DecidableEq

/-- What the timer of `close` does: end the opening, or give up waiting for the peer. -/
inductive CloseGuard
  | opening
  | waiting

/-- A `WebSocket`. -/
structure Socket where
  protocol : Text
  requestedProtocols : List Text
  readyState : ReadyState
  port : Bool
  closed : Bool
  closeGuard : Option CloseGuard
  bufferedAmount : Nat
  binaryType : BinaryType
  /-- The reply to the opening has come. -/
  replied : Bool
  /-- How often `send` took something. -/
  calls : Nat
  /-- The Blobs that are being read to be posted, with the calls that sent them. -/
  sending : List (Nat × List UInt8)
  /-- The Blobs that are being read to be delivered. -/
  receiving : List (List UInt8)
  posted : List Post
  /-- The events, each with the `readyState` that its handlers see. -/
  fired : List (ReadyState × Event)

/-- `new WebSocket`: the opening is asked for. -/
def connect (protocols : List Text) : Socket where
  protocol := []
  requestedProtocols := protocols
  readyState := .connecting
  port := false
  closed := false
  closeGuard := none
  bufferedAmount := 0
  binaryType := .blob
  replied := false
  calls := 0
  sending := []
  receiving := []
  posted := []
  fired := []

/-! ## The calls of the page -/

/-- What a call throws. -/
inductive ApiError
  | invalidState
  | invalidAccess
  | syntaxError

namespace Socket

/-- `dispatchEvent`. -/
def fire (e : Event) (s : Socket) : Socket := { s with fired := s.fired ++ [(s.readyState, e)] }

/-- `postMessage` on the port. -/
def post (m : Post) (s : Socket) : Socket := { s with posted := s.posted ++ [m] }

/-- `send`. A Blob is posted when it has been read. -/
def send (data : Payload) (s : Socket) : Except ApiError Socket :=
  if s.readyState = .connecting then .error .invalidState
  else if s.readyState ≠ .opened ∨ s.port = false then
    .ok { s with bufferedAmount := s.bufferedAmount + payloadByteLength data }
  else
    let bytes := payloadByteLength data
    let s' := { s with bufferedAmount := s.bufferedAmount + bytes, calls := s.calls + 1 }
    match data with
    | .blob b => .ok { s' with sending := s'.sending ++ [(s.calls, b)] }
    | data => .ok (s'.post (.send s.calls data bytes))

end Socket

open Socket

def validateCloseCode : Option Int → Except ApiError Unit
  | none => .ok ()
  | some n => if n ≠ 1000 ∧ (n < 3000 ∨ n > 4999) then .error .invalidAccess else .ok ()

def validateReason : Option Text → Except ApiError Unit
  | none => .ok ()
  | some reason => if (utf8 reason).length > 123 then .error .syntaxError else .ok ()

/-- What `close` asks the worker for. -/
def closeRequest (code : Option Int) (reason : Option Text) : Post :=
  .close (code.getD 1000) (reason.getD [])

/-- `close`. Without a port the opening is still under way, and the timer ends it. -/
def Socket.close (code : Option Int) (reason : Option Text) (s : Socket) :
    Except ApiError Socket := do
  validateCloseCode code
  validateReason reason
  if s.closed ∨ s.readyState = .closing ∨ s.readyState = .closed then return s
  let s := { s with readyState := .closing }
  if s.port = false then return { s with closeGuard := some .opening }
  let s := { s with closeGuard := some .waiting }
  return s.post (closeRequest code reason)

/-- What the page's code does with a socket. -/
inductive Call
  | send (data : Payload)
  | close (code : Option Int) (reason : Option Text)
  | binaryType (t : BinaryType)
  /-- The code throws, and what it would do next is not done. -/
  | throws
  deriving DecidableEq

/-- A call is made. One that throws changes nothing. -/
def Socket.call (s : Socket) : Call → Socket
  | .send data => (s.send data).toOption.getD s
  | .close code reason => (s.close code reason).toOption.getD s
  | .binaryType t => { s with binaryType := t }
  | .throws => s

/-! ## The ends of a socket -/

/-- The socket is closed, once. -/
def finish (code : Int) (reason : Text) (wasClean : Bool) (s : Socket) : Socket :=
  if s.closed then s
  else
    fire (.close code reason wasClean)
      { s with closed := true, readyState := .closed, closeGuard := none, port := false }

/-- The kernel is told to give up. -/
def abort (s : Socket) : Socket := if s.port then s.post .abort else s

/-- `fail`. The handlers of the error event make the calls `onError` before the socket ends. One
    that throws leaves `dispatchEvent` and `fail`, and the socket does not end. -/
def fail (onError : List Call) (s : Socket) : Socket :=
  if s.closed then s
  else
    let s := (onError.takeWhile (· != .throws)).foldl call ((abort s).fire .error)
    if onError.contains .throws then s else finish 1006 [] false s

/-! ## What the socket reacts to -/

/-- What is done with the reply to the opening. A reply without a port throws when its handler is
    set. -/
def onReply (onError : List Call) (s : Socket) : Reply → Socket
  | .rejected => fail onError s
  | .resolved port protocol =>
    if s.closed ∨ s.readyState = .closing then if port then s.post .abort else s
    else
      let s := { s with port := port }
      if protocol ≠ [] ∧ protocol ∉ s.requestedProtocols then fail onError s
      else
        let s := { s with protocol := protocol }
        if port = false then fail onError s
        else fire .opened { s with readyState := .opened }

/-- The handler of the port. -/
def onmessage (onError : List Call) (s : Socket) (m : PortMessage) : Socket :=
  if s.closed then s
  else match m with
    | .message (.buffer b) =>
      s.fire (.message (if s.binaryType = .blob then .blob b else .buffer b))
    | .message (.blob b) =>
      if s.binaryType = .arraybuffer then { s with receiving := s.receiving ++ [b] }
      else s.fire (.message (.blob b))
    | .message (.text t) => s.fire (.message (.text t))
    | .error => fail onError s
    | .close code reason => finish code reason (code != 1006) s
    | .senddrained bytes => { s with bufferedAmount := s.bufferedAmount - bytes }

/-- A Blob that was to be posted has been read, or could not be. -/
def onSendRead (onError : List Call) (s : Socket) (i : Nat) (ok : Bool) : Socket :=
  match s.sending[i]? with
  | none => s
  | some (call, b) =>
    let s := { s with sending := s.sending.eraseIdx i }
    if ok = false then fail onError s
    else if s.readyState = .opened ∧ s.port then s.post (.send call (.buffer b) b.length)
    else { s with bufferedAmount := s.bufferedAmount - b.length }

/-- A Blob that was to be delivered has been read, or could not be. -/
def onReceiveRead (onError : List Call) (s : Socket) (i : Nat) (ok : Bool) : Socket :=
  match s.receiving[i]? with
  | none => s
  | some b =>
    let s := { s with receiving := s.receiving.eraseIdx i }
    if ok = false then fail onError s
    else if s.closed then s
    else s.fire (.message (.buffer b))

/-- The timer of `close`. -/
def onTimer (onError : List Call) (s : Socket) : Socket :=
  match s.closeGuard with
  | none => s
  | some .opening => fail onError s
  | some .waiting => if s.closed then s else finish 1006 [] false (abort s)

/-- What a turn is about. -/
inductive Act
  | call (c : Call)
  | reply (r : Reply)
  | port (m : PortMessage)
  | sendRead (i : Nat) (ok : Bool)
  | receiveRead (i : Nat) (ok : Bool)
  | timer
  /-- A promise's `catch`: a handler threw in its `then`, of the open event, of an error event or of
      the message of a Blob that was read. -/
  | caught

/-- A turn, and the calls that the handlers of an error event make in it. The handlers of the
    other events run last, so that their calls are turns of their own. -/
structure Turn where
  act : Act
  onError : List Call := []

/-- What a turn does. There is one reply, and no message without a port. -/
def step (s : Socket) (t : Turn) : Socket :=
  match t.act with
  | .call c => s.call c
  | .reply r => if s.replied then s else onReply t.onError { s with replied := true } r
  | .port m => if s.port then onmessage t.onError s m else s
  | .sendRead i ok => onSendRead t.onError s i ok
  | .receiveRead i ok => onReceiveRead t.onError s i ok
  | .timer => onTimer t.onError s
  | .caught => fail t.onError s

@[simp] theorem step_call (s : Socket) (c : Call) (onError : List Call) :
    step s ⟨.call c, onError⟩ = s.call c := rfl

@[simp] theorem step_sendRead (s : Socket) (i : Nat) (ok : Bool) (onError : List Call) :
    step s ⟨.sendRead i ok, onError⟩ = onSendRead onError s i ok := rfl

/-! ## The calls of the page and the events -/

/-- What no call of the page touches. -/
structure Untouched (s s' : Socket) : Prop where
  fired : s'.fired = s.fired
  closed : s'.closed = s.closed
  replied : s'.replied = s.replied
  receiving : s'.receiving = s.receiving
  port : s'.port = s.port

theorem Untouched.refl (s : Socket) : Untouched s s := ⟨rfl, rfl, rfl, rfl, rfl⟩

theorem Untouched.trans {s₁ s₂ s₃ : Socket} (h : Untouched s₁ s₂) (h' : Untouched s₂ s₃) :
    Untouched s₁ s₃ :=
  ⟨h'.fired.trans h.fired, h'.closed.trans h.closed, h'.replied.trans h.replied,
    h'.receiving.trans h.receiving, h'.port.trans h.port⟩

variable {s : Socket} {onError : List Call}

theorem send_cases (data : Payload) (s : Socket) :
    (s.call (.send data) = s ∧ s.readyState = .connecting) ∨
    (s.call (.send data) = { s with bufferedAmount := s.bufferedAmount + payloadByteLength data } ∧
      (s.readyState ≠ .opened ∨ s.port = false)) ∨
    (s.readyState = .opened ∧ s.port ∧ ∃ b, data = .blob b ∧ s.call (.send data) = { s with
        bufferedAmount := s.bufferedAmount + b.length, calls := s.calls + 1,
        sending := s.sending ++ [(s.calls, b)] }) ∨
    (s.readyState = .opened ∧ s.port ∧ (∀ b, data ≠ .blob b) ∧ s.call (.send data) = { s with
        bufferedAmount := s.bufferedAmount + payloadByteLength data, calls := s.calls + 1,
        posted := s.posted ++ [.send s.calls data.content (payloadByteLength data)] }) := by
  rw [call, send]
  by_cases hconnecting : s.readyState = .connecting
  · exact .inl ⟨by rw [if_pos hconnecting]; rfl, hconnecting⟩
  by_cases hclosing : s.readyState ≠ .opened ∨ s.port = false
  · exact .inr (.inl ⟨by rw [if_neg hconnecting, if_pos hclosing]; rfl, hclosing⟩)
  rw [if_neg hconnecting, if_neg hclosing]
  rw [not_or, not_not, Bool.not_eq_false] at hclosing
  obtain ⟨hopened, hport⟩ := hclosing
  cases data with
  | blob b => exact .inr (.inr (.inl ⟨hopened, hport, b, rfl, rfl⟩))
  | text t | buffer b => exact .inr (.inr (.inr ⟨hopened, hport, nofun, rfl⟩))

/-- The arguments of `close` are valid. -/
def validClose (code : Option Int) (reason : Option Text) : Bool :=
  (validateCloseCode code).toBool && (validateReason reason).toBool

theorem close_cases (code : Option Int) (reason : Option Text) (s : Socket) :
    (s.call (.close code reason) = s ∧ (validClose code reason = false ∨ s.closed ∨
      s.readyState = .closing ∨ s.readyState = .closed)) ∨
    (validClose code reason ∧ s.closed = false ∧ s.readyState ≠ .closing ∧
      s.readyState ≠ .closed ∧ s.port = false ∧
      s.call (.close code reason) = { s with readyState := .closing, closeGuard := some .opening }) ∨
    (validClose code reason ∧ s.closed = false ∧ s.readyState ≠ .closing ∧
      s.readyState ≠ .closed ∧ s.port ∧
      s.call (.close code reason) = { s with
        readyState := .closing, closeGuard := some .waiting,
        posted := s.posted ++ [closeRequest code reason] }) := by
  rw [call, close, validClose]
  cases hcode : validateCloseCode code with
  | error e => exact .inl ⟨rfl, .inl rfl⟩
  | ok u =>
    cases hreason : validateReason reason with
    | error e => exact .inl ⟨rfl, .inl rfl⟩
    | ok u =>
      by_cases hdone : s.closed ∨ s.readyState = .closing ∨ s.readyState = .closed
      · refine .inl ⟨?_, .inr hdone⟩
        simp [hdone, bind, Except.bind, pure, Except.pure, Except.toOption]
      · right
        cases hport : s.port with
        | false => simp_all [bind, Except.bind, pure, Except.pure, Except.toOption, Except.toBool]
        | true =>
          simp_all [bind, Except.bind, pure, Except.pure, Except.toOption, Except.toBool, post]

theorem untouched_call (s : Socket) (c : Call) : Untouched s (s.call c) := by
  cases c with
  | send data =>
    rcases send_cases data s with ⟨h, -⟩ | ⟨h, -⟩ | ⟨-, -, b, -, h⟩ | ⟨-, -, -, h⟩ <;> rw [h] <;>
      exact ⟨rfl, rfl, rfl, rfl, rfl⟩
  | close code reason =>
    rcases close_cases code reason s with ⟨h, -⟩ | ⟨-, -, -, -, -, h⟩ | ⟨-, -, -, -, -, h⟩ <;>
      rw [h] <;> exact ⟨rfl, rfl, rfl, rfl, rfl⟩
  | binaryType t => exact ⟨rfl, rfl, rfl, rfl, rfl⟩
  | throws => exact Untouched.refl s

/-- A call of `close` with valid arguments. -/
def Call.asksClose : Call → Bool
  | .close code reason => validClose code reason
  | _ => false

theorem readyState_call (s : Socket) (c : Call) :
    ((s.call c).readyState = s.readyState ∧ (s.call c).closeGuard = s.closeGuard) ∨
    (c.asksClose ∧ s.readyState ≠ .closing ∧ s.readyState ≠ .closed ∧
      (s.call c).readyState = .closing ∧ (s.call c).closeGuard ≠ none) := by
  cases c with
  | send data =>
    rcases send_cases data s with ⟨h, -⟩ | ⟨h, -⟩ | ⟨-, -, b, -, h⟩ | ⟨-, -, -, h⟩ <;> rw [h] <;>
      exact .inl ⟨rfl, rfl⟩
  | close code reason =>
    rcases close_cases code reason s with ⟨h, -⟩ | ⟨hv, -, h, h', -, hs⟩ | ⟨hv, -, h, h', -, hs⟩
    · exact .inl (by rw [h]; exact ⟨rfl, rfl⟩)
    · exact .inr ⟨hv, h, h', by rw [hs], by rw [hs]; exact nofun⟩
    · exact .inr ⟨hv, h, h', by rw [hs], by rw [hs]; exact nofun⟩
  | binaryType t => exact .inl ⟨rfl, rfl⟩
  | throws => exact .inl ⟨rfl, rfl⟩

theorem untouched_calls (s : Socket) (cs : List Call) : Untouched s (cs.foldl call s) :=
  @run_induction _ _ call s cs (Untouched s) (Untouched.refl s)
    fun _ c _ h => h.trans (untouched_call _ c)

theorem untouched_abort (s : Socket) : Untouched s (abort s) := by
  rw [abort]
  split
  · exact ⟨rfl, rfl, rfl, rfl, rfl⟩
  · exact Untouched.refl s

end ZeroProxy.Membrane.WebSocket
