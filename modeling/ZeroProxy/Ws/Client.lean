import ZeroProxy.Kernel.BodyReader

/-!
# The WebSocket client

The frame codec of `kernel/transport/ws_client.rs` (RFC 6455, section 5), and the client over it as
a state machine: a reader task and a writer task share a state with the caller, and each of them
takes its steps when it is its turn.
-/

namespace ZeroProxy.Ws

open Bool Bytes Http List Text

/-- The opcodes of frames. -/
inductive Opcode
  | continuation
  | text
  | binary
  | close
  | ping
  | pong
  deriving DecidableEq

namespace Opcode

/-- The number of an opcode. -/
def toU8 : Opcode → UInt8
  | continuation => 0x0
  | text => 0x1
  | binary => 0x2
  | close => 0x8
  | ping => 0x9
  | pong => 0xa

/-- The opcode of a number. -/
def fromU8 (v : UInt8) : Option Opcode :=
  if v == 0x0 then some continuation
  else if v == 0x1 then some text
  else if v == 0x2 then some binary
  else if v == 0x8 then some close
  else if v == 0x9 then some ping
  else if v == 0xa then some pong
  else none

/-- The opcode of a control frame. -/
def isControl : Opcode → Bool
  | close | ping | pong => true
  | _ => false

end Opcode

/-- A frame that was read. -/
structure Frame where
  fin : Bool
  op : Opcode
  payload : Bytes

/-- `MAX_WS_BUFFER_BYTES`. -/
def maxWsBufferBytes : Nat := 33554432

/-! ## Frames of the server -/

/-- Why a frame is refused. -/
inductive FrameError
  /-- `RSV bits set`. -/
  | rsv (bits : UInt8)
  /-- `unknown opcode`. -/
  | opcode (v : UInt8)
  /-- `server frame is masked`. -/
  | masked
  /-- `frame payload > 32 MiB`. -/
  | tooLong
  /-- `control frame fragmented`. -/
  | fragmentedControl
  /-- `control payload > 125`. -/
  | longControl

def readLength (field : UInt8) (next : Nat → Decoder UInt8 FrameError Frame) :
    Decoder UInt8 FrameError Frame :=
  if field ≤ 125 then next field.toNat
  else if field == 126 then .take 2 fun ext => next (ofBigEndian ext)
  else .take 8 fun ext =>
    if maxWsBufferBytes < ofBigEndian ext then .fail .tooLong else next (ofBigEndian ext)

/-- The payload of a frame, if the frame may have the length. -/
def readPayload (fin : Bool) (op : Opcode) (len : Nat) : Decoder UInt8 FrameError Frame :=
  if op.isControl && !fin then .fail .fragmentedControl
  else if op.isControl && decide (125 < len) then .fail .longControl
  else .take len fun payload => .done ⟨fin, op, payload⟩

/-- The rest of a frame after its first two bytes. -/
def readBody (b0 b1 : UInt8) : Decoder UInt8 FrameError Frame :=
  if b0 &&& 0x70 != 0 then .fail (.rsv (b0 &&& 0x70))
  else match Opcode.fromU8 (b0 &&& 0x0f) with
  | none => .fail (.opcode (b0 &&& 0x0f))
  | some op =>
    if b1 &&& 0x80 != 0 then .fail .masked
    else readLength (b1 &&& 0x7f) (readPayload (b0 &&& 0x80 != 0) op)

/-- `read_frame_split`. -/
def readFrame : Decoder UInt8 FrameError Frame :=
  .take 2 fun header => readBody (header.headD 0) (header.tail.headD 0)

theorem parse_readFrame (b0 b1 : UInt8) (t : Bytes) :
    readFrame.parse (b0 :: b1 :: t) = (readBody b0 b1).parse t :=
  Decoder.parse_take_append (s := [b0, b1]) rfl t

theorem exists_readBody_eq_fail {b0 b1 : UInt8}
    (h : b0 &&& 0x70 ≠ 0 ∨ Opcode.fromU8 (b0 &&& 0x0f) = none ∨ b1 &&& 0x80 ≠ 0) :
    ∃ e, readBody b0 b1 = .fail e := by
  rw [readBody]
  by_cases hrsv : (b0 &&& 0x70 != 0)
  · exact ⟨_, if_pos hrsv⟩
  rw [if_neg hrsv]
  cases hop : Opcode.fromU8 (b0 &&& 0x0f) with
  | none => exact ⟨_, rfl⟩
  | some op =>
    have hmask : b1 &&& 0x80 ≠ 0 := by
      rcases h with h | h | h
      · exact absurd (bne_iff_ne.2 h) hrsv
      · rw [hop] at h
        cases h
      · exact h
    exact ⟨_, if_pos (bne_iff_ne.2 hmask)⟩

variable {len : Nat}

theorem exists_readPayload_eq_fail {fin : Bool} {op : Opcode} (hop : op.isControl)
    (h : fin = false ∨ 125 < len) : ∃ e, readPayload fin op len = .fail e := by
  rw [readPayload, hop]
  cases fin with
  | false => exact ⟨_, if_pos rfl⟩
  | true =>
    exact ⟨_, if_pos (decide_eq_true (h.resolve_left nofun))⟩

/-! ## Frames of the client -/

/-- A payload under a key. -/
def mask (key : Bytes) (payload : Bytes) : Bytes :=
  payload.zipIdx.map fun e => e.1 ^^^ key.getD (e.2 &&& 3) 0

/-- `encode_frame`, with the key that was drawn for it, or why none could be. -/
def encodeFrame (key : Except Text Bytes) (op : Opcode) (payload : Bytes) : Except Text Bytes :=
  if op.isControl && decide (125 < payload.length) then
    .error "control frame payload exceeds 125 bytes"
  else match key with
  | .error e => .error ("getrandom mask: " ++ e)
  | .ok key =>
    let len := payload.length
    let length :=
      if len < 126 then [0x80 ||| UInt8.ofNat len]
      else if len ≤ 0xffff then (0x80 ||| 126) :: bigEndian 2 len
      else (0x80 ||| 127) :: bigEndian 8 len
    .ok ((0x80 ||| op.toU8) :: length ++ key ++ mask key payload)

theorem exists_encodeFrame {op : Opcode} {payload : Bytes}
    (h : op.isControl → payload.length ≤ 125) (key : Bytes) :
    ∃ b, encodeFrame (.ok key) op payload = .ok b := by
  rw [encodeFrame, if_neg]
  · exact ⟨_, rfl⟩
  · rw [and_eq_true, decide_eq_true_eq]
    exact fun hlong => not_lt.2 (h hlong.1) hlong.2

/-! ## Frames as a server writes them -/

/-- Where a server writes the length of a payload: in the second byte, or in two or eight bytes
    after it. The shortest form is not asked for. -/
inductive LengthForm
  | short
  | medium
  | long
  deriving DecidableEq

def LengthForm.room : LengthForm → Nat
  | .short => 126
  | .medium => UInt16.size
  | .long => UInt64.size

/-- The second byte of a frame, and the bytes of its length. -/
def LengthForm.encode : LengthForm → Nat → Bytes
  | .short, n => [UInt8.ofNat n]
  | .medium, n => 126 :: bigEndian 2 n
  | .long, n => 127 :: bigEndian 8 n

/-- A frame without its payload. -/
def header (fin : Bool) (op : Opcode) (form : LengthForm) (len : Nat) : Bytes :=
  ((if fin then 0x80 else 0) ||| op.toU8) :: form.encode len

/-- A frame on the wire. -/
structure WireFrame extends Frame where
  form : LengthForm
  fits : payload.length < form.room
  within : payload.length ≤ maxWsBufferBytes
  control : op.isControl → fin ∧ payload.length ≤ 125

/-- A frame in bytes. -/
def WireFrame.encode (w : WireFrame) : Bytes := header w.fin w.op w.form w.payload.length ++ w.payload

theorem readLength_encode {form : LengthForm} (h : len < form.room)
    (next : Nat → Decoder UInt8 FrameError Frame) (t : Bytes) :
    ∃ b1 ext, form.encode len = b1 :: ext ∧ b1 &&& 0x80 = 0 ∧
      (readLength (b1 &&& 0x7f) next).parse (ext ++ t) =
        if form = .long ∧ maxWsBufferBytes < len then .error .tooLong else (next len).parse t := by
  cases form with
  | short =>
    have hbits : ∀ n < 126, UInt8.ofNat n &&& 0x80 = 0 ∧ UInt8.ofNat n &&& 0x7f ≤ 125 ∧
        (UInt8.ofNat n &&& 0x7f).toNat = n := by decide
    obtain ⟨hmask, hle, hlen⟩ := hbits len h
    refine ⟨_, [], rfl, hmask, ?_⟩
    rw [readLength, if_pos hle, hlen]
    rfl
  | medium =>
    refine ⟨126, bigEndian 2 len, rfl, by decide, ?_⟩
    rw [readLength, if_neg (by decide), if_pos (by decide),
      Decoder.parse_take_append (length_bigEndian 2 len),
      ofBigEndian_bigEndian h, if_neg (fun hlong => by cases hlong.1)]
  | long =>
    refine ⟨127, bigEndian 8 len, rfl, by decide, ?_⟩
    rw [readLength, if_neg (by decide), if_neg (by decide),
      Decoder.parse_take_append (length_bigEndian 8 len), ofBigEndian_bigEndian h]
    by_cases hlong : maxWsBufferBytes < len
    · rw [if_pos hlong, if_pos ⟨rfl, hlong⟩]
      rfl
    · rw [if_neg hlong, if_neg (fun hl => hlong hl.2)]

theorem parse_header {form : LengthForm} (h : len < form.room) (fin : Bool) (op : Opcode)
    (t : Bytes) : readFrame.parse (header fin op form len ++ t) =
      if form = .long ∧ maxWsBufferBytes < len then .error .tooLong
      else (readPayload fin op len).parse t := by
  have hbits : ((if fin then 0x80 else 0) ||| op.toU8) &&& 0x70 = 0 ∧
      Opcode.fromU8 (((if fin then 0x80 else 0) ||| op.toU8) &&& 0x0f) = some op ∧
      (((if fin then 0x80 else 0) ||| op.toU8) &&& 0x80 != 0) = fin := by
    cases fin <;> cases op <;> decide
  obtain ⟨hrsv, hop, hfin⟩ := hbits
  obtain ⟨b1, ext, hencode, hmask, hlen⟩ := readLength_encode h (readPayload fin op) t
  rw [header, hencode]
  generalize ((if fin then 0x80 else 0) ||| op.toU8) = b0 at hrsv hop hfin
  rw [cons_append, cons_append, parse_readFrame, readBody, hrsv, if_neg (by decide), hop]
  dsimp only
  rw [hmask, if_neg (by decide), hfin, hlen]

theorem parse_encode (w : WireFrame) (t : Bytes) :
    readFrame.parse (w.encode ++ t) = .ok w.toFrame t := by
  have hlong : ¬(w.form = .long ∧ maxWsBufferBytes < w.payload.length) :=
    fun h => not_lt.2 w.within h.2
  rw [WireFrame.encode, append_assoc, parse_header w.fits, if_neg hlong, readPayload]
  rw [if_neg, if_neg, Decoder.parse_take_append rfl]
  · rfl
  · rw [and_eq_true, decide_eq_true_eq]
    exact fun h => not_lt.2 (w.control h.1).2 h.2
  · rw [and_eq_true]
    rintro ⟨hcontrol, hfin⟩
    rw [(w.control hcontrol).1] at hfin
    cases hfin

/-! ## Frames of the client, as the standard reads them -/

/-- What a frame says: its first bits, its opcode, the key of its mask and the payload behind it. -/
structure Decoded where
  fin : Bool
  rsv : UInt8
  opcode : UInt8
  key : Option Bytes
  payload : Bytes

/-- A length, which must take as few bytes as it can. -/
def decodeLength (field : UInt8) (next : Nat → Decoder UInt8 Unit Decoded) :
    Decoder UInt8 Unit Decoded :=
  if field ≤ 125 then next field.toNat
  else if field == 126 then .take 2 fun ext =>
    if ofBigEndian ext < 126 then .fail () else next (ofBigEndian ext)
  else .take 8 fun ext =>
    if ofBigEndian ext < 2 ^ 16 ∨ 2 ^ 63 ≤ ofBigEndian ext then .fail () else next (ofBigEndian ext)

/-- The rest of a frame after its first two bytes. -/
def decodeBody (b0 b1 : UInt8) : Decoder UInt8 Unit Decoded :=
  let frame := Decoded.mk (b0 &&& 0x80 != 0) (b0 &&& 0x70) (b0 &&& 0x0f)
  decodeLength (b1 &&& 0x7f) fun len =>
    if b1 &&& 0x80 == 0 then .take len fun payload => .done (frame none payload)
    else .take 4 fun key => .take len fun masked => .done <|
      frame (some key) (masked.mapIdx fun i b => b ^^^ key.getD (i % 4) 0)

/-- RFC 6455, section 5.2. -/
def decodeFrame : Decoder UInt8 Unit Decoded :=
  .take 2 fun header => decodeBody (header.headD 0) (header.tail.headD 0)

theorem parse_decodeFrame (b0 b1 : UInt8) (t : Bytes) :
    decodeFrame.parse (b0 :: b1 :: t) = (decodeBody b0 b1).parse t :=
  Decoder.parse_take_append (s := [b0, b1]) rfl t

theorem decodeLength_of_lt (h : len < 2 ^ 63) :
    ∃ b1 ext, (if len < 126 then [0x80 ||| UInt8.ofNat len]
        else if len ≤ 0xffff then (0x80 ||| 126) :: bigEndian 2 len
        else (0x80 ||| 127) :: bigEndian 8 len) = b1 :: ext ∧ (b1 &&& 0x80 == 0) = false ∧
      ∀ next t, (decodeLength (b1 &&& 0x7f) next).parse (ext ++ t) = (next len).parse t := by
  split_ifs with hshort hmedium
  · have hbits : ∀ n < 126, ((0x80 ||| UInt8.ofNat n) &&& 0x80 == 0) = false ∧
        (0x80 ||| UInt8.ofNat n) &&& 0x7f ≤ 125 ∧
        ((0x80 ||| UInt8.ofNat n) &&& 0x7f).toNat = n := by decide
    obtain ⟨hmask, hle, hlen⟩ := hbits len hshort
    refine ⟨_, [], rfl, hmask, fun next t => ?_⟩
    rw [decodeLength, if_pos hle, hlen]
    rfl
  · refine ⟨_, _, rfl, by decide, fun next t => ?_⟩
    rw [decodeLength, if_neg (by decide), if_pos (by decide),
      Decoder.parse_take_append (length_bigEndian 2 len), ofBigEndian_bigEndian (by omega),
      if_neg hshort]
  · refine ⟨_, _, rfl, by decide, fun next t => ?_⟩
    rw [decodeLength, if_neg (by decide), if_neg (by decide),
      Decoder.parse_take_append (length_bigEndian 8 len), ofBigEndian_bigEndian (by omega),
      if_neg (by omega)]

theorem unmask_mask (key payload : Bytes) :
    ((mask key payload).mapIdx fun i b => b ^^^ key.getD (i % 4) 0) = payload := by
  refine ext_getElem (by simp [mask]) fun i h _ => ?_
  have hmod : i &&& 3 = i % 4 := Nat.and_two_pow_sub_one_eq_mod i 2
  simp only [mask, getElem_mapIdx, getElem_map, getElem_zipIdx, Nat.zero_add, hmod,
    UInt8.xor_assoc, UInt8.xor_self, UInt8.xor_zero]

/-- What `encode_frame` makes of a slice (of which the length fits an `isize`). -/
theorem decode_encodeFrame (op : Opcode) (k₀ k₁ k₂ k₃ : UInt8) {payload : Bytes}
    (h : payload.length < 2 ^ 63) :
    match encodeFrame (.ok [k₀, k₁, k₂, k₃]) op payload with
    | .ok b => decodeFrame.parse b = .ok ⟨true, 0, op.toU8, some [k₀, k₁, k₂, k₃], payload⟩ []
    | .error _ => op.isControl ∧ 125 < payload.length := by
  rw [encodeFrame]
  by_cases hcontrol : (op.isControl && decide (125 < payload.length))
  · rw [if_pos hcontrol]
    rwa [and_eq_true, decide_eq_true_eq] at hcontrol
  rw [if_neg hcontrol]
  have hop : ((0x80 ||| op.toU8) &&& 0x80 != 0) = true ∧ (0x80 ||| op.toU8) &&& 0x70 = 0 ∧
      (0x80 ||| op.toU8) &&& 0x0f = op.toU8 := by
    cases op <;> decide
  have hkey : [k₀, k₁, k₂, k₃].length = 4 := rfl
  have hlen : (mask [k₀, k₁, k₂, k₃] payload).length = payload.length := by simp [mask]
  obtain ⟨b1, ext, hbytes, hmask, hdecode⟩ := decodeLength_of_lt h
  dsimp only
  rw [hbytes, cons_append, cons_append, cons_append, cons_append,
    parse_decodeFrame, decodeBody, append_assoc, hdecode, hmask, if_neg Bool.false_ne_true,
    Decoder.parse_take_append hkey, ← append_nil (mask _ _), Decoder.parse_take_append hlen,
    unmask_mask, hop.1, hop.2.1, hop.2.2]
  rfl

/-- A text frame of two bytes. -/
theorem decode_encodeFrame_greeting : match encodeFrame (.ok [1, 2, 3, 4]) .text ([0x68, 0x69]) with
    | .ok b => decodeFrame.parse b = .ok ⟨true, 0, 1, some [1, 2, 3, 4], [0x68, 0x69]⟩ []
    | .error _ => (Opcode.text.isControl : Prop) ∧ 125 < ([0x68, 0x69]).length :=
  decode_encodeFrame .text 1 2 3 4 (by decide)

/-- A message of a page. -/
inductive Message
  | text (t : Text)
  | binary (b : Bytes)

def Message.op : Message → Opcode
  | .text _ => .text
  | .binary _ => .binary

def Message.payload : Message → Bytes
  | .text t => utf8 t
  | .binary b => b

/-- `OutMsg`. -/
inductive OutMsg
  | data (m : Message)
  | pong (payload : Bytes)
  | close (payload : Bytes)

/-- The opcode of what is written. -/
def OutMsg.op : OutMsg → Opcode
  | .data m => m.op
  | .pong _ => .pong
  | .close _ => .close

def OutMsg.payload : OutMsg → Bytes
  | .data m => m.payload
  | .pong b | .close b => b

/-- `matches!(msg, OutMsg::Close(_))`. -/
def OutMsg.isClose : OutMsg → Bool
  | .close _ => true
  | _ => false

/-- The callbacks that are installed. -/
structure Handlers where
  message : Bool
  close : Bool
  error : Bool

/-- What can be seen of the client: callbacks, calls that throw, messages that are queued, and
    frames that are given to the transport. -/
inductive Event
  | message (m : Message)
  | error (text : Text)
  | close (code : Nat) (reason : Text)
  | thrown (text : Text)
  | queued (m : OutMsg)
  | sent (m : OutMsg) (frame : Bytes)

/-! ## The shared state -/

/-- `Shared`, with `WriterShared`. -/
structure Shared where
  handlers : Handlers
  queue : List OutMsg
  closedLocal : Bool
  peerClose : Option (Nat × Text)
  buffered : Nat
  closed : Bool
  closeCode : Nat
  closeReason : Text

/-- The state that `open` makes. -/
def Shared.new : Shared := ⟨⟨false, false, false⟩, [], false, none, 0, false, 1006, []⟩

namespace Shared

variable (s : Shared)

/-- The close event, once. -/
def surfaceClose (code : Nat) (reason : Text) : Shared × List Event :=
  if s.closed then (s, [])
  else
    ({ s with closed := true, closeCode := code, closeReason := reason, queue := [], buffered := 0 },
      if s.handlers.close then [.close code reason] else [])

/-- The error event and the close event. -/
def failConnection (error : Text) : Shared × List Event :=
  if s.closed then (s, [])
  else
    let out := s.surfaceClose 1006 []
    (out.1, (if s.handlers.error then [.error error] else []) ++ out.2)

/-- A message joins the queue. -/
def push (m : OutMsg) : Shared × List Event := ({ s with queue := s.queue ++ [m] }, [.queued m])

/-- A message event. -/
def deliverMessage (op : Opcode) (payload : Bytes) : Shared × List Event :=
  if !s.handlers.message then (s, [])
  else match op with
  | .text =>
    match fromUtf8 payload with
    | some t => (s, [.message (.text t)])
    | none => s.failConnection "invalid UTF-8 in text frame"
  | .binary => (s, [.message (.binary payload)])
  | _ => (s, [])

/-- `set_handlers`; a peer can finish before the caller installs them. -/
def setHandlers : Option Handlers → Shared × List Event
  | none => (s, [.thrown "setHandlers: missing handlers object"])
  | some h =>
    ({ s with handlers := h },
      if s.closed && h.close then [.close s.closeCode s.closeReason] else [])

/-- `send`, of a value that is a string, a buffer, or neither. -/
def send (data : Option Message) : Shared × List Event :=
  if s.closed || s.closedLocal then (s, [.thrown "WS_BLOCKED: send after close"])
  else match data with
  | none => (s, [.thrown "send: unsupported payload type"])
  | some m =>
    { s with buffered := min (s.buffered + m.payload.length) Kernel.usizeMax }.push (.data m)

/-- A code that a page may close with. -/
def isLocalCloseCode (code : Nat) : Bool := code == 1000 || decide (3000 ≤ code ∧ code ≤ 4999)

/-- `close` of a page. -/
def close (code : Option Nat) (reason : Option Text) : Shared × List Event :=
  if s.closed then (s, [])
  else
    let code := code.getD 1000
    let reason := reason.getD []
    if !isLocalCloseCode code || decide (123 < (utf8 reason).length) then
      s.failConnection "invalid local close code or reason"
    else if s.closedLocal then (s, [])
    else { s with closedLocal := true }.push (.close (bigEndian 2 code ++ utf8 reason))

/-- `abort` of a page. -/
def abort : Shared × List Event := s.surfaceClose 1006 []

end Shared

/-! ## The reader task -/

/-- A close code that a peer may give. -/
def isPeerCloseCode (code : Nat) : Bool :=
  decide (1000 ≤ code ∧ code ≤ 1003) || decide (1007 ≤ code ∧ code ≤ 1014) ||
    decide (3000 ≤ code ∧ code ≤ 4999)

/-- The code and the reason of a close frame. -/
def decodeClosePayload : Bytes → Except Text (Nat × Text)
  | [] => .ok (1005, [])
  | [_] => .error "malformed close payload"
  | b0 :: b1 :: reason =>
    if !isPeerCloseCode (ofBigEndian [b0, b1]) then .error "invalid close status code"
    else match fromUtf8 reason with
    | none => .error "invalid close reason UTF-8"
    | some t => .ok (ofBigEndian [b0, b1], t)

/-- The reader task. -/
structure Reader where
  conn : Source UInt8
  fragOp : Option Opcode
  fragBuf : Bytes
  running : Bool

namespace Reader

/-- The task ends with a failure. -/
def fail (r : Reader) (s : Shared) (error : Text) : Reader × Shared × List Event :=
  ({ r with running := false }, s.failConnection error)

/-- The reader has read a frame. -/
def onFrame (r : Reader) (s : Shared) (f : Frame) : Reader × Shared × List Event :=
  match f.op with
  | .continuation =>
    match r.fragOp with
    | none => r.fail s "continuation without start"
    | some op =>
      if maxWsBufferBytes - r.fragBuf.length < f.payload.length then
        r.fail s "fragmented message exceeds 32 MiB cap"
      else if f.fin then
        ({ r with fragOp := none, fragBuf := [] }, s.deliverMessage op (r.fragBuf ++ f.payload))
      else ({ r with fragBuf := r.fragBuf ++ f.payload }, s, [])
  | .text | .binary =>
    if r.fragOp.isSome then r.fail s "new data frame mid-fragment"
    else if maxWsBufferBytes < f.payload.length then
      r.fail s "message payload exceeds 32 MiB cap"
    else if f.fin then (r, s.deliverMessage f.op f.payload)
    else ({ r with fragOp := some f.op, fragBuf := f.payload }, s, [])
  | .ping => if s.closedLocal then (r, s, []) else (r, s.push (.pong f.payload))
  | .pong => (r, s, [])
  | .close =>
    match decodeClosePayload f.payload with
    | .error e => r.fail s e
    | .ok peer =>
      -- No queued data goes out after a Close; a Close that is queued already stays.
      let s := { s with peerClose := some peer, queue := s.queue.filter OutMsg.isClose, buffered := 0 }
      ({ r with running := false },
        if s.closedLocal then (s, [])
        else { s with closedLocal := true }.push (.close f.payload))

theorem onFrame_data {r : Reader} {s : Shared} {f : Frame} (hop : f.op = .text ∨ f.op = .binary) :
    r.onFrame s f = if r.fragOp.isSome then r.fail s "new data frame mid-fragment"
      else if maxWsBufferBytes < f.payload.length then
        r.fail s "message payload exceeds 32 MiB cap"
      else if f.fin then (r, s.deliverMessage f.op f.payload)
      else ({ r with fragOp := some f.op, fragBuf := f.payload }, s, []) := by
  rw [onFrame]
  rcases hop with hop | hop <;> rw [hop]

/-- One turn of `reader_task`. A frame of which no more arrives is waited for. -/
def step (r : Reader) (s : Shared) : Reader × Shared × List Event :=
  if !r.running then (r, s, [])
  else if s.closed then ({ r with running := false }, s, [])
  else match readFrame.run r.conn with
  | .ok f conn => { r with conn }.onFrame s f
  | .cut .quiet => (r, s, [])
  | _ => r.fail s "WebSocket transport ended without a Close frame"

theorem step_of_running {r : Reader} {s : Shared} (hr : r.running) (hs : ¬s.closed) :
    r.step s = match readFrame.run r.conn with
      | .ok f conn => { r with conn }.onFrame s f
      | .cut .quiet => (r, s, [])
      | _ => r.fail s "WebSocket transport ended without a Close frame" := by
  rw [step, hr, if_neg (by decide), if_neg hs]

end Reader

/-! ## The client -/

/-- The writer task. -/
inductive WriterTask
  /-- It waits for a message. -/
  | idle
  /-- It writes a frame. -/
  | writing
  /-- It closes the transport. -/
  | closing (peer : Nat × Text)
  | done

/-- The client: what its tasks share, and the tasks. -/
structure Client where
  shared : Shared
  reader : Reader
  writer : WriterTask

def Client.opened (conn : Source UInt8) : Client := ⟨.new, ⟨conn, none, [], true⟩, .idle⟩

/-- A step of one of the parties. -/
inductive Action
  | read
  /-- The writer task is polled, with the key that is drawn for a mask. -/
  | poll (key : Except Text Bytes)
  /-- A frame was written, or could not be. -/
  | wrote (ok : Bool)
  /-- The transport was closed. -/
  | shut
  | setHandlers (handlers : Option Handlers)
  | send (data : Option Message)
  | close (code : Option Nat) (reason : Option Text)
  | abort

namespace Client

/-- The writer task takes a message, if there is one (`WriterPoll::poll`, `writer_task`). -/
def poll (c : Client) (key : Except Text Bytes) : Client × List Event :=
  match c.writer with
  | .idle =>
    if c.shared.closed then ({ c with writer := .done }, [])
    else match c.shared.queue with
    | m :: queue =>
      match encodeFrame key m.op m.payload with
      | .error e =>
        let out := { c.shared with queue }.failConnection e
        ({ c with shared := out.1, writer := .done }, out.2)
      | .ok frame =>
        ({ c with
            shared := { c.shared with
              queue, buffered := c.shared.buffered - m.payload.length },
            writer := .writing }, [.sent m frame])
    | [] =>
      match c.shared.peerClose with
      | none => (c, [])
      | some peer =>
        ({ c with shared := { c.shared with peerClose := none }, writer := .closing peer }, [])
  | _ => (c, [])

/-- A frame was written or not; a task that was aborted does not go on. -/
def wrote (c : Client) (ok : Bool) : Client × List Event :=
  match c.writer with
  | .writing =>
    if c.shared.closed then ({ c with writer := .done }, [])
    else if ok then ({ c with writer := .idle }, [])
    else
      let out := c.shared.failConnection "WebSocket frame write failed"
      ({ c with shared := out.1, writer := .done }, out.2)
  | _ => (c, [])

/-- The transport was closed, and the Close of the peer is reported. -/
def shut (c : Client) : Client × List Event :=
  match c.writer with
  | .closing peer =>
    let out := c.shared.surfaceClose peer.1 peer.2
    ({ c with shared := out.1, writer := .done }, out.2)
  | _ => (c, [])

def call (c : Client) (out : Shared × List Event) : Client × List Event :=
  ({ c with shared := out.1 }, out.2)

/-- The client does one thing. -/
def step (c : Client) : Action → Client × List Event
  | .read =>
    let out := c.reader.step c.shared
    ({ c with reader := out.1, shared := out.2.1 }, out.2.2)
  | .poll key => c.poll key
  | .wrote ok => c.wrote ok
  | .shut => c.shut
  | .setHandlers handlers => c.call (c.shared.setHandlers handlers)
  | .send data => c.call (c.shared.send data)
  | .close code reason => c.call (c.shared.close code reason)
  | .abort => c.call c.shared.abort

/-- The client does things in order. -/
def run (c : Client) : List Action → Client × List Event
  | [] => (c, [])
  | a :: as =>
    let out := c.step a
    ((out.1.run as).1, out.2 ++ (out.1.run as).2)

theorem run_cons (c : Client) (a : Action) (as : List Action) :
    c.run (a :: as) = (((c.step a).1.run as).1, (c.step a).2 ++ ((c.step a).1.run as).2) := rfl

theorem run_append (c : Client) (as bs : List Action) :
    c.run (as ++ bs) = (((c.run as).1.run bs).1, (c.run as).2 ++ ((c.run as).1.run bs).2) := by
  induction as generalizing c with
  | nil => rfl
  | cons a as ih =>
    rw [cons_append, run_cons, run_cons, ih]
    simp

end Client

/-- The messages that were passed to the handler. -/
def delivered (events : List Event) : List Message :=
  events.filterMap fun
    | .message m => some m
    | _ => none

@[simp] theorem delivered_append (a b : List Event) :
    delivered (a ++ b) = delivered a ++ delivered b := filterMap_append

/-- The pongs that were queued. -/
def pongs (events : List Event) : List Bytes :=
  events.filterMap fun
    | .queued (.pong payload) => some payload
    | _ => none

@[simp] theorem pongs_append (a b : List Event) : pongs (a ++ b) = pongs a ++ pongs b :=
  filterMap_append

end ZeroProxy.Ws
