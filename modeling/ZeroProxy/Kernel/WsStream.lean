import ZeroProxy.Kernel.IoError
import ZeroProxy.Machine.Run
import ZeroProxy.Text.Search

/-!
# A WebSocket as a stream of bytes

The transport of the kernel runs over a WebSocket of the browser (`ws_stream.rs`). Callbacks put
binary messages in a queue and record how the socket ends, and polls read from the queue. An error
is recorded once, in a slot that reads and writes both take it from; after it the reader should get
the bytes that were queued before, then the error, then the end, and nothing is written any more.
-/

namespace ZeroProxy.Kernel.WsStream

open List Machine Text

/-! ## The state -/

def maxWsBufferBytes : Nat := 32 * 1024 * 1024

/-- The state that callbacks and polls share. -/
structure Inner where
  rxBuf : List (List UInt8)
  rxBytes : Nat
  readCursor : Nat
  closed : Bool
  error : Option IoError
  opened : Bool
  /-- Someone waits to be woken. -/
  readWaker : Bool
  openWaker : Bool

open WsStream.Inner

def Inner.new : Inner where
  rxBuf := []
  rxBytes := 0
  readCursor := 0
  closed := false
  error := none
  opened := false
  readWaker := false
  openWaker := false

def Inner.wakeRead (g : Inner) : Inner := { g with readWaker := false }

def Inner.wakeOpen (g : Inner) : Inner := { g with openWaker := false }

/-! ## The callbacks -/

/-- What a message event carries. -/
inductive Payload
  | binary (bytes : List UInt8)
  | text (s : Text)
  | other

/-- The error of a queue that would become too large. -/
def capError : IoError := ⟨.invalidData, "ws_stream: receive buffer exceeded 32 MiB cap"⟩

/-- The error of a message that is not binary; the length of a text is that of its UTF-8. -/
def payloadError : Payload → IoError
  | .text s => ⟨.invalidData, "ws_stream: unexpected text frame (" ++
      numeral (utf8Len s) ++ " chars)"⟩
  | _ => ⟨.invalidData, "ws_stream: onmessage payload is neither ArrayBuffer nor string"⟩

def eventError : IoError := ⟨.connectionAborted, "ws_stream: WebSocket onerror"⟩

def closeError (code : Nat) (wasClean : Bool) : IoError :=
  ⟨.connectionReset, "ws_stream: WebSocket closed code=" ++ numeral code ++
    " clean=" ++ (if wasClean then "true".toList else "false")⟩

def onOpen (g : Inner) : Inner := wakeOpen { g with opened := true }

/-- The message does not fit in the queue. -/
def exceeds (g : Inner) (bytes : List UInt8) : Bool :=
  decide (maxWsBufferBytes - g.rxBytes < bytes.length)

def onMessage (g : Inner) : Payload → Inner
  | .binary bytes =>
    if bytes.isEmpty then g
    else if g.closed then g
    else if exceeds g bytes then
      wakeOpen (wakeRead { g with
        rxBuf := [], rxBytes := 0, readCursor := 0, closed := true, error := some capError })
    else
      wakeRead { g with
        rxBytes := g.rxBytes + bytes.length, rxBuf := g.rxBuf ++ [bytes] }
  | .text s => wakeRead { g with error := some (payloadError (.text s)) }
  | .other => wakeRead { g with error := some (payloadError .other) }

def onError (g : Inner) : Inner :=
  wakeOpen (wakeRead { g with error := g.error.or (some eventError), closed := true })

def onClose (g : Inner) (code : Nat) (wasClean : Bool) : Inner :=
  let error := if !wasClean || (code != 1000 && code != 1005) then
    g.error.or (some (closeError code wasClean)) else g.error
  wakeOpen (wakeRead { g with closed := true, error := error })

/-! ## The polls -/

/-- What a poll for bytes returns. `ready []` is the end of the stream. -/
inductive ReadPoll
  | ready (bytes : List UInt8)
  | failed (e : IoError)
  | pending

/-- `poll_read` into a buffer of `n` bytes. -/
def pollRead (n : Nat) (g : Inner) : ReadPoll × Inner :=
  let front := g.rxBuf.headD []
  let k := min (front.length - g.readCursor) n
  if 0 < k then
    let bytes := (front.drop g.readCursor).take k
    if front.length ≤ g.readCursor + k then
      (.ready bytes, { g with
        rxBuf := g.rxBuf.tail, rxBytes := g.rxBytes - front.length, readCursor := 0 })
    else (.ready bytes, { g with readCursor := g.readCursor + k })
  else match g.error with
    | some e => (.failed e, { g with error := none })
    | none => if g.closed then (.ready [], g) else (.pending, { g with readWaker := true })

/-- What `poll_write` returns. -/
inductive WritePoll
  | ready (n : Nat)
  | failed (e : IoError)

def writeError : IoError := ⟨.brokenPipe, "ws_stream: write after close"⟩

/-- `poll_write`; the browser takes the bytes or throws `refusal`. -/
def pollWrite (bytes : List UInt8) (refusal : Option IoError) (g : Inner) : WritePoll × Inner :=
  match g.error with
  | some e => (.failed e, { g with error := none })
  | none =>
    if g.closed then (.failed writeError, g)
    else if bytes.isEmpty then (.ready 0, g)
    else match refusal with
      | none => (.ready bytes.length, g)
      | some e => (.failed e, g)

def pollClose (g : Inner) : Inner := { g with closed := true }

/-- The poll of `OpenFuture`: an error, that the socket is open, or nothing yet. -/
def pollOpen (g : Inner) : Option (Except IoError Unit) × Inner :=
  match g.error with
  | some e => (some (.error e), { g with error := none })
  | none => if g.opened then (some (.ok ()), g) else (none, { g with openWaker := true })

/-- A callback of the socket or a poll. -/
inductive Act
  | onOpen
  | onMessage (p : Payload)
  | onError
  | onClose (code : Nat) (wasClean : Bool)
  | pollOpen
  | pollRead (n : Nat)
  | pollWrite (bytes : List UInt8) (refusal : Option IoError)
  | pollClose

/-- What is done to the state. -/
def Inner.step (g : Inner) : Act → Inner
  | .onOpen => onOpen g
  | .onMessage p => onMessage g p
  | .onError => onError g
  | .onClose code wasClean => onClose g code wasClean
  | .pollOpen => (pollOpen g).2
  | .pollRead n => (pollRead n g).2
  | .pollWrite bytes refusal => (pollWrite bytes refusal g).2
  | .pollClose => pollClose g

/-! ## The queue -/

def unread (g : Inner) : List UInt8 := g.rxBuf.flatten.drop g.readCursor

/-- What holds of the queue: no message in it is empty, the cursor is in the first one, and the
    bytes are counted and bounded. -/
structure Queue (g : Inner) : Prop where
  nonempty : ∀ m ∈ g.rxBuf, m ≠ []
  cursor : g.readCursor = 0 ∨ g.readCursor < (g.rxBuf.headD []).length
  count : g.rxBytes = (g.rxBuf.map List.length).sum
  bounded : g.rxBytes ≤ maxWsBufferBytes

theorem Queue.congr {g g' : Inner} (h : Queue g) (hbuf : g'.rxBuf = g.rxBuf)
    (hbytes : g'.rxBytes = g.rxBytes) (hcursor : g'.readCursor = g.readCursor) : Queue g' := by
  obtain ⟨h1, h2, h3, h4⟩ := h
  exact ⟨hbuf ▸ h1, by rw [hbuf, hcursor]; exact h2, by rw [hbuf, hbytes]; exact h3, hbytes ▸ h4⟩

theorem Queue.empty {g : Inner} (hbuf : g.rxBuf = []) (hbytes : g.rxBytes = 0)
    (hcursor : g.readCursor = 0) : Queue g :=
  ⟨by simp [hbuf], .inl hcursor, by rw [hbytes, hbuf]; rfl, by rw [hbytes]; exact Nat.zero_le _⟩

variable {g : Inner}

theorem unread_eq_nil_iff (h : Queue g) : unread g = [] ↔ g.rxBuf = [] := by
  constructor
  · intro hnil
    cases hbuf : g.rxBuf with
    | nil => rfl
    | cons m rest =>
      -- The cursor is in the first message, so a byte of it is left.
      have hm : 0 < m.length := length_pos_iff.2 (h.nonempty m (hbuf ▸ .head _))
      have hlt : g.readCursor < m.length := by
        rcases h.cursor with h0 | hlt
        · rw [h0]
          exact hm
        · rwa [hbuf] at hlt
      rw [unread, hbuf, flatten_cons, drop_eq_nil_iff, length_append] at hnil
      omega
  · intro hbuf
    rw [unread, hbuf, flatten_nil, drop_nil]

theorem pollRead_nil {n : Nat} (h : g.rxBuf = [] ∨ n = 0) : pollRead n g = match g.error with
      | some e => (.failed e, { g with error := none })
      | none => if g.closed then (.ready [], g) else (.pending, { g with readWaker := true }) := by
  have hk : ¬0 < min ((g.rxBuf.headD []).length - g.readCursor) n := by
    rcases h with h | h
    · rw [h]
      simp
    · rw [h]
      simp
  rw [pollRead, if_neg hk]

theorem pollRead_cons (h : Queue g) {n : Nat} (hn : 0 < n) (hbuf : g.rxBuf ≠ []) :
    ∃ bytes g', pollRead n g = (.ready bytes, g') ∧ bytes ≠ [] ∧ bytes.length ≤ n ∧
      unread g = bytes ++ unread g' ∧ Queue g' ∧ g'.error = g.error ∧ g'.closed = g.closed ∧
      ∃ m rest, g.rxBuf = m :: rest ∧ bytes <+: m.drop g.readCursor ∧
        (g'.rxBuf = rest ∧ g'.readCursor = 0 ∧ bytes = m.drop g.readCursor ∨
          g'.rxBuf = m :: rest ∧ g'.readCursor = g.readCursor + bytes.length) := by
  obtain ⟨m, rest, hcons⟩ := exists_cons_of_ne_nil hbuf
  have hm : 0 < m.length := length_pos_iff.2 (h.nonempty m (hcons ▸ .head _))
  have hlt : g.readCursor < m.length := by
    rcases h.cursor with h0 | hlt
    · rw [h0]
      exact hm
    · rwa [hcons] at hlt
  have hfront : g.rxBuf.headD [] = m := by rw [hcons]; rfl
  have hk : 0 < min (m.length - g.readCursor) n := by omega
  have hlen : ((m.drop g.readCursor).take (min (m.length - g.readCursor) n)).length =
      min (m.length - g.readCursor) n := by
    rw [length_take, length_drop]
    omega
  have hunread : unread g = m.drop g.readCursor ++ rest.flatten := by
    rw [unread, hcons, flatten_cons, drop_append_of_le_length hlt.le]
  have hsum : g.rxBytes = m.length + (rest.map length).sum := by
    rw [h.count, hcons, map_cons, sum_cons]
  have hne : (m.drop g.readCursor).take (min (m.length - g.readCursor) n) ≠ [] :=
    ne_nil_of_length_pos (by rw [hlen]; exact hk)
  have hle : ((m.drop g.readCursor).take (min (m.length - g.readCursor) n)).length ≤ n := by
    rw [hlen]
    exact Nat.min_le_right _ _
  rw [pollRead, hfront, if_pos hk]
  by_cases hdrained : m.length ≤ g.readCursor + min (m.length - g.readCursor) n
  · -- The first message is read to its end.
    have hall : min (m.length - g.readCursor) n = m.length - g.readCursor := by omega
    rw [if_pos hdrained]
    have htake : (m.drop g.readCursor).take (min (m.length - g.readCursor) n) =
        m.drop g.readCursor := by
      rw [hall, take_of_length_le (by rw [length_drop])]
    refine ⟨_, _, rfl, hne, hle, ?_, ⟨?_, .inl rfl, ?_, ?_⟩, rfl, rfl, m, rest, hcons,
      take_prefix _ _, .inl ⟨by rw [hcons]; rfl, rfl, htake⟩⟩
    · rw [hunread, htake, unread]
      rw [hcons, tail_cons, drop_zero]
    · exact fun x hx => h.nonempty x (mem_of_mem_tail hx)
    · dsimp only
      rw [hcons, tail_cons, hsum]
      omega
    · exact le_trans (Nat.sub_le _ _) h.bounded
  · rw [if_neg hdrained]
    rw [not_le] at hdrained
    refine ⟨_, _, rfl, hne, hle, ?_, ⟨h.nonempty, .inr ?_, h.count, h.bounded⟩, rfl, rfl, m, rest,
      hcons, take_prefix _ _, .inr ⟨hcons, by rw [hlen]⟩⟩
    · have hrest : unread { g with readCursor := g.readCursor + min (m.length - g.readCursor) n } =
          (m.drop g.readCursor).drop (min (m.length - g.readCursor) n) ++ rest.flatten := by
        rw [unread, drop_drop]
        rw [hcons, flatten_cons, drop_append_of_le_length hdrained.le]
      rw [hunread, hrest, ← append_assoc, take_append_drop]
    · rw [hfront]
      exact hdrained

/-! ### Messages -/

/-- The message is put in the queue. -/
def accepts (g : Inner) (bytes : List UInt8) : Bool :=
  !bytes.isEmpty && !g.closed && !exceeds g bytes

/-- The message exceeds the cap. -/
def overflows (g : Inner) (bytes : List UInt8) : Bool :=
  !bytes.isEmpty && !g.closed && exceeds g bytes

theorem onMessage_binary (g : Inner) (bytes : List UInt8) :
    (accepts g bytes ∧ overflows g bytes = false ∧ bytes ≠ [] ∧ g.closed = false ∧
      exceeds g bytes = false ∧ onMessage g (.binary bytes) = wakeRead { g with
        rxBytes := g.rxBytes + bytes.length, rxBuf := g.rxBuf ++ [bytes] }) ∨
    (accepts g bytes = false ∧ overflows g bytes ∧ g.closed = false ∧
      onMessage g (.binary bytes) = wakeOpen (wakeRead { g with
        rxBuf := [], rxBytes := 0, readCursor := 0, closed := true, error := some capError })) ∨
    (accepts g bytes = false ∧ overflows g bytes = false ∧ (bytes = [] ∨ g.closed) ∧
      onMessage g (.binary bytes) = g) := by
  rw [onMessage, accepts, overflows]
  cases bytes with
  | nil => exact .inr (.inr ⟨rfl, rfl, .inl rfl, rfl⟩)
  | cons x bytes =>
    cases hclosed : g.closed with
    | true => exact .inr (.inr ⟨rfl, rfl, .inr rfl, rfl⟩)
    | false =>
      cases hexceeds : exceeds g (x :: bytes) with
      | true => exact .inr (.inl ⟨rfl, rfl, rfl, rfl⟩)
      | false => exact .inl ⟨rfl, rfl, cons_ne_nil x bytes, rfl, rfl, rfl⟩

theorem Queue.push {bytes : List UInt8} (h : Queue g) (hne : bytes ≠ [])
    (hfits : exceeds g bytes = false) :
    Queue { g with rxBytes := g.rxBytes + bytes.length, rxBuf := g.rxBuf ++ [bytes] } ∧
      unread { g with rxBytes := g.rxBytes + bytes.length, rxBuf := g.rxBuf ++ [bytes] } =
        unread g ++ bytes := by
  have hle : g.readCursor ≤ g.rxBuf.flatten.length := by
    rcases h.cursor with h0 | hlt
    · rw [h0]
      exact Nat.zero_le _
    cases hbuf : g.rxBuf with
    | nil =>
      rw [hbuf] at hlt
      cases hlt
    | cons m rest =>
      rw [hbuf] at hlt
      rw [flatten_cons, length_append]
      exact le_trans hlt.le (Nat.le_add_right _ _)
  rw [exceeds, decide_eq_false_iff_not, not_lt] at hfits
  have hbounded := h.bounded
  refine ⟨⟨fun m hm => ?_, ?_, ?_, ?_⟩, ?_⟩
  · rcases mem_append.1 hm with hm | hm
    · exact h.nonempty m hm
    · rw [mem_singleton.1 hm]
      exact hne
  · refine h.cursor.imp id fun hlt => ?_
    cases hbuf : g.rxBuf with
    | nil =>
      rw [hbuf] at hlt
      cases hlt
    | cons m rest =>
      rw [hbuf] at hlt
      simpa using hlt
  · rw [map_append, sum_append, h.count]
    rfl
  · dsimp only
    omega
  · rw [unread, unread]
    rw [flatten_append, flatten_singleton, drop_append_of_le_length hle]

/-! ## What went through a stream -/

/-- A stream, and what went through it. -/
structure Tape where
  inner : Inner
  /-- The binary messages that were received before the cap was exceeded. -/
  received : List UInt8
  /-- The bytes that were put in the queue. -/
  queued : List UInt8
  /-- The bytes that polls returned. -/
  returned : List UInt8
  exceeded : Bool

def Tape.start : Tape := ⟨new, [], [], [], false⟩

def ReadPoll.bytes : ReadPoll → List UInt8
  | .ready bytes => bytes
  | _ => []

/-- A callback or a poll. -/
def Tape.step (t : Tape) (a : Act) : Tape :=
  match a with
  | .onMessage (.binary bytes) =>
    let exceeded := t.exceeded || overflows t.inner bytes
    { inner := t.inner.step a
      received := if exceeded then t.received else t.received ++ bytes
      queued := if accepts t.inner bytes then t.queued ++ bytes else t.queued
      returned := t.returned
      exceeded := exceeded }
  | .pollRead n =>
    { t with inner := t.inner.step a, returned := t.returned ++ (pollRead n t.inner).1.bytes }
  | a => { t with inner := t.inner.step a }

/-- What holds of a stream at any time. -/
structure Tape.Inv (t : Tape) : Prop where
  queue : Queue t.inner
  /-- What was returned and what is in the queue is what was queued. -/
  returned : t.exceeded = false → t.returned ++ unread t.inner = t.queued
  /-- When the cap was exceeded the queue was given up. -/
  exceeded : t.exceeded →
    t.inner.rxBuf = [] ∧ t.inner.closed ∧ t.returned <+: t.queued
  received : t.queued <+: t.received
  /-- All is queued until the stream is closed. -/
  live : t.inner.closed = false → t.queued = t.received

theorem Tape.inv_start : Tape.Inv .start where
  queue := Queue.empty rfl rfl rfl
  returned _ := rfl
  exceeded h := absurd h Bool.false_ne_true
  received := prefix_rfl
  live _ := rfl

variable {t : Tape}

theorem Tape.Inv.congr {g' : Inner} (h : t.Inv) (hbuf : g'.rxBuf = t.inner.rxBuf)
    (hbytes : g'.rxBytes = t.inner.rxBytes) (hcursor : g'.readCursor = t.inner.readCursor)
    (hclosed : t.inner.closed → g'.closed) :
    Tape.Inv { t with inner := g' } where
  queue := h.queue.congr hbuf hbytes hcursor
  returned he := by
    rw [← h.returned he]
    simp [unread, hbuf, hcursor]
  exceeded he := by
    obtain ⟨h1, h2, h3⟩ := h.exceeded he
    exact ⟨hbuf.trans h1, hclosed h2, h3⟩
  received := h.received
  live hlive := h.live (Bool.eq_false_iff.2 fun hc => Bool.false_ne_true (hlive.symm.trans (hclosed hc)))

theorem Tape.Inv.onMessage (h : t.Inv) (bytes : List UInt8) :
    Tape.Inv (t.step (.onMessage (.binary bytes))) := by
  rcases onMessage_binary t.inner bytes with ⟨ha, ho, hne, hclosed, hfits, hm⟩ |
    ⟨ha, ho, hclosed, hm⟩ | ⟨ha, ho, hnothing, hm⟩
  · -- The message is queued: the stream is live.
    have hlive := Bool.eq_false_iff.2 fun he =>
      Bool.false_ne_true (hclosed.symm.trans (h.exceeded he).2.1)
    obtain ⟨hqueue, hunread⟩ := h.queue.push hne hfits
    simp only [Tape.step, Inner.step, ha, ho, hm, hlive]
    refine ⟨hqueue.congr rfl rfl rfl, fun _ => ?_, nofun, ?_, fun _ => ?_⟩
    · rw [← h.returned hlive, append_assoc]
      exact congrArg (t.returned ++ ·) hunread
    · rw [h.live hclosed]
      exact prefix_rfl
    · rw [h.live hclosed]
      rfl
  · have hlive := Bool.eq_false_iff.2 fun he =>
      Bool.false_ne_true (hclosed.symm.trans (h.exceeded he).2.1)
    simp only [Tape.step, Inner.step, ha, ho, hm, Bool.or_true]
    refine ⟨Queue.empty rfl rfl rfl, nofun, fun _ => ?_,
      h.received, nofun⟩
    exact ⟨rfl, rfl, h.returned hlive ▸ prefix_append _ _⟩
  · simp only [Tape.step, Inner.step, ha, ho, hm, Bool.or_false]
    refine ⟨h.queue, h.returned, h.exceeded, ?_, fun hc => ?_⟩
    · split
      · exact h.received
      · exact h.received.trans (prefix_append _ _)
    · rcases hnothing with rfl | hclosed
      · rw [append_nil, ite_self]
        exact h.live hc
      · exact absurd (hc.symm.trans hclosed) Bool.false_ne_true

theorem pollRead_nil_inner {n : Nat} (h : g.rxBuf = [] ∨ n = 0) :
    (pollRead n g).1.bytes = [] ∧ (pollRead n g).2.rxBuf = g.rxBuf ∧
      (pollRead n g).2.rxBytes = g.rxBytes ∧ (pollRead n g).2.readCursor = g.readCursor ∧
      (pollRead n g).2.closed = g.closed := by
  rw [pollRead_nil h]
  split
  · exact ⟨rfl, rfl, rfl, rfl, rfl⟩
  · split <;> exact ⟨rfl, rfl, rfl, rfl, rfl⟩

theorem Tape.Inv.pollRead (h : t.Inv) (n : Nat) : Tape.Inv (t.step (.pollRead n)) := by
  by_cases hnone : t.inner.rxBuf = [] ∨ n = 0
  · obtain ⟨hbytes, hbuf, hcount, hcursor, hclosed⟩ := pollRead_nil_inner hnone
    have hsame : t.step (.pollRead n) = { t with inner := (WsStream.pollRead n t.inner).2 } := by
      rw [Tape.step, hbytes, append_nil]
      rfl
    rw [hsame]
    exact h.congr hbuf hcount hcursor fun hc => hclosed.trans hc
  rw [not_or] at hnone
  obtain ⟨bytes, g', hpoll, -, -, hunread, hqueue, -, hclosed, -⟩ :=
    pollRead_cons h.queue (pos_of_ne_zero hnone.2) hnone.1
  have hlive := Bool.eq_false_iff.2 fun he => hnone.1 (h.exceeded he).1
  have hstep : t.step (.pollRead n) =
      { t with inner := g', returned := t.returned ++ bytes } := by
    simp [Tape.step, Inner.step, hpoll, ReadPoll.bytes]
  rw [hstep]
  refine ⟨hqueue, fun _ => ?_, fun he => absurd (he.symm.trans hlive).symm Bool.false_ne_true,
    h.received, fun hc => h.live (hclosed ▸ hc)⟩
  rw [← h.returned hlive, hunread, append_assoc]

theorem pollWrite_inner (bytes : List UInt8) (refusal : Option IoError) (g : Inner) :
    (pollWrite bytes refusal g).2 = { g with error := none } := by
  unfold pollWrite
  split
  · rfl
  rename_i hnone
  have hsame : g = { g with error := none } := by rw [← hnone]
  split
  · exact hsame
  · split
    · exact hsame
    · split <;> exact hsame

theorem pollOpen_inner (g : Inner) : ∃ waker,
    (pollOpen g).2 = { g with error := none, openWaker := waker } := by
  unfold pollOpen
  split
  · exact ⟨g.openWaker, rfl⟩
  · rename_i hnone
    split
    · exact ⟨g.openWaker, by rw [← hnone]⟩
    · exact ⟨true, by rw [← hnone]⟩

theorem Tape.Inv.step (h : t.Inv) (a : Act) : Tape.Inv (t.step a) := by
  cases a with
  | onOpen => exact h.congr rfl rfl rfl id
  | onMessage p =>
    cases p with
    | binary bytes => exact h.onMessage bytes
    | text s => exact h.congr rfl rfl rfl id
    | other => exact h.congr rfl rfl rfl id
  | onError | onClose code wasClean | pollClose => exact h.congr rfl rfl rfl fun _ => rfl
  | pollOpen =>
    obtain ⟨waker, hinner⟩ := pollOpen_inner t.inner
    simp only [Tape.step, Inner.step, hinner]
    exact h.congr rfl rfl rfl id
  | pollRead n => exact h.pollRead n
  | pollWrite bytes refusal =>
    simp only [Tape.step, Inner.step, pollWrite_inner]
    exact h.congr rfl rfl rfl id
/-- A poll tells the reader of an end or of an error. -/
def ReadPoll.isEnd : ReadPoll → Bool
  | .ready bytes => bytes.isEmpty
  | .failed _ => true
  | .pending => false

/-- After any callbacks and polls into buffers that are not empty: what was returned is a prefix
    of what was received before the cap was exceeded; the bytes of the queue are counted and at
    most 32 MiB; with what is in the queue it is all that was queued, which is all that was received
    while the stream was open; and the reader was told of an end or an error only when all had been
    returned, or when the cap was exceeded. -/
theorem stream_faithful (acts : List Act) (hbuf : ∀ n, .pollRead n ∈ acts → 0 < n) :
    let t := run Tape.step .start acts
    t.returned <+: t.received ∧
    t.inner.rxBytes = (t.inner.rxBuf.map List.length).sum ∧
    t.inner.rxBytes ≤ 32 * 1024 * 1024 ∧
    (t.exceeded = false → t.returned ++ unread t.inner = t.queued) ∧
    (t.queued <+: t.received ∧ (t.inner.closed = false → t.queued = t.received)) ∧
    Always Tape.step (fun t a => ∀ n, a = .pollRead n → (pollRead n t.inner).1.isEnd →
      t.returned = t.queued ∨ t.exceeded) .start acts := by
  intro t
  have h : Tape.Inv t := run_induction Tape.inv_start fun _ a _ ht => ht.step a
  refine ⟨?_, h.queue.count, h.queue.bounded, h.returned, ⟨h.received, h.live⟩, ?_⟩
  · cases he : t.exceeded with
    | false => exact (h.returned he ▸ prefix_append _ _ : t.returned <+: t.queued).trans h.received
    | true => exact (h.exceeded he).2.2.trans h.received
  refine always_of_invariant Tape.inv_start (fun _ a ht => ht.step a) fun t a ha ht n hread hend => ?_
  subst hread
  by_cases hempty : t.inner.rxBuf = []
  · -- Nothing is queued, so all that was queued has been returned.
    cases he : t.exceeded with
    | true => exact .inr rfl
    | false =>
      have hall := ht.returned he
      rw [(unread_eq_nil_iff ht.queue).2 hempty, append_nil] at hall
      exact .inl hall
  · obtain ⟨bytes, g', hpoll, hne, -⟩ := pollRead_cons ht.queue (hbuf n ha) hempty
    rw [hpoll, ReadPoll.isEnd, List.isEmpty_iff] at hend
    exact absurd hend hne

/-- Two messages are read across their boundary, and then the end. -/
theorem stream_faithful_hello :
    (run Tape.step .start [.onOpen, .pollOpen, .onMessage (.binary [1, 2]),
      .onMessage (.binary [3]), .pollRead 1, .onClose 1000 true, .pollRead 8, .pollRead 8,
      .pollRead 8]).returned = [1, 2, 3] := by
  have hall := (stream_faithful [.onOpen, .pollOpen, .onMessage (.binary [1, 2]),
    .onMessage (.binary [3]), .pollRead 1, .onClose 1000 true, .pollRead 8, .pollRead 8,
    .pollRead 8] (by simp)).2.2.2.1 rfl
  exact (append_nil _).symm.trans hall

/-! ## Readers that wait -/

/-- A reader that waits to be woken would find nothing: no byte, no error, and no end, unless `own`
    says that the stream was closed from this side. -/
def Parked (own : Prop) (g : Inner) : Prop :=
  g.readWaker → g.rxBuf = [] ∧ g.error = none ∧ (g.closed → own)

theorem Parked.step {own : Prop} {a : Act} (hqueue : Queue g) (h : Parked own g)
    (hown : a = .pollClose → own) (hread : a ≠ .pollRead 0) : Parked own (g.step a) := by
  cases a with
  | onMessage p => cases p <;> grind [Parked, Inner.step, onMessage, wakeRead, wakeOpen]
  | pollOpen =>
    obtain ⟨waker, hinner⟩ := pollOpen_inner g
    grind [Parked, Inner.step]
  | pollRead n =>
    by_cases hbuf : g.rxBuf = []
    · have hpoll := @pollRead_nil g n (.inl hbuf)
      grind [Parked, Inner.step]
    · -- There is something to read, so nobody waits, and the poll does not either.
      obtain ⟨bytes, g', hpoll, hne, -⟩ :=
        pollRead_cons hqueue (Nat.pos_of_ne_zero fun h0 => hread (h0 ▸ rfl)) hbuf
      have hsame : g'.readWaker = g.readWaker := by grind [pollRead]
      grind [Parked, Inner.step]
  | pollWrite bytes refusal => grind [Parked, Inner.step, pollWrite_inner]
  | onOpen | onError | onClose code wasClean | pollClose =>
    grind [Parked, Inner.step, onOpen, onError, onClose, pollClose, wakeRead, wakeOpen]

/-- No wake-up is lost, in any order of callbacks and polls into buffers that are not empty: a
    reader that waits would find nothing, and a poll that returns without a result waits. -/
theorem reader_parked (acts : List Act) :
    (.pollRead 0 ∈ acts ∨ Parked (.pollClose ∈ acts) (run Tape.step .start acts).inner) ∧
    ∀ n, (pollRead n (run Tape.step .start acts).inner).1 = .pending →
      (pollRead n (run Tape.step .start acts).inner).2.readWaker := by
  refine ⟨?_, fun n hpending => by grind [pollRead]⟩
  by_cases hzero : .pollRead 0 ∈ acts
  · exact .inl hzero
  refine .inr (@run_induction _ _ Tape.step _ acts
    (fun t => t.Inv ∧ Parked (.pollClose ∈ acts) t.inner) ⟨Tape.inv_start, nofun⟩ ?_).2
  intro t a ha ht
  have hinner : (t.step a).inner = t.inner.step a := by
    unfold Tape.step
    split <;> rfl
  exact ⟨ht.1.step a, hinner ▸ ht.2.step ht.1.queue (fun h => h ▸ ha) fun h => hzero (h ▸ ha)⟩

open Option

/-! ## What may be returned -/

/-- A stream, and what became of the error that was recorded first. -/
structure Watch where
  inner : Inner
  /-- The error that the reader is still to see, and the bytes that were queued before it and are
      not read. -/
  due : Option (List UInt8 × IoError)
  /-- The error has been returned, to the reader or to the writer. -/
  returned : Bool

def Watch.start (g : Inner) : Watch := ⟨g, none, false⟩

def ReadPoll.isFailure : ReadPoll → Bool
  | .failed _ => true
  | _ => false

def WritePoll.isFailure : WritePoll → Bool
  | .failed _ => true
  | .ready _ => false

open WritePoll

namespace Watch

/-- The reader gets the bytes that were queued before the error, and then the error. A read into no
    buffer gets no error while there are bytes. -/
def Sees (left : List UInt8) (e : IoError) (n : Nat) (r : ReadPoll) : Prop :=
  if left = [] then r = .failed e
  else if n = 0 then r.isFailure = false
  else ∃ bytes, bytes ≠ [] ∧ bytes <+: left ∧ r = .ready bytes

def left (w : Watch) : List UInt8 := (w.due.map Prod.fst).getD []

/-- What a poll may return: the reader sees the error, and after the error has been returned the
    stream is like a closed one. -/
def Lawful (w : Watch) : Act → Prop
  | .pollRead n =>
    (∀ p ∈ w.due, Sees p.1 p.2 n (pollRead n w.inner).1) ∧
    (w.returned → ∃ bytes, (pollRead n w.inner).1 = .ready bytes ∧ (w.left = [] → bytes = []))
  | .pollWrite bytes refusal =>
    w.returned → (pollWrite bytes refusal w.inner).1.isFailure
  | _ => True

/-- A callback or a poll. The first error that is recorded is due to the reader. -/
def step (w : Watch) (a : Act) : Watch :=
  let g := w.inner.step a
  match a with
  | .pollRead n =>
    match (pollRead n w.inner).1 with
    | .ready bytes => { w with inner := g, due := w.due.map fun p => (p.1.drop bytes.length, p.2) }
    | .failed _ => ⟨g, none, true⟩
    | .pending => { w with inner := g }
  | .pollWrite _ _ => { w with inner := g, returned := w.returned || w.inner.error.isSome }
  | _ =>
    if w.due = none ∧ w.returned = false then ⟨g, g.error.map fun e => (unread g, e), false⟩
    else { w with inner := g }

/-! ## Events and polls in order -/

/-- The close event records no error. -/
def isCleanClose (code : Nat) (wasClean : Bool) : Bool := wasClean && (code == 1000 || code == 1005)

/-- The order of events and polls in which no poll is given what it may not get: reads are into
    buffers that are not empty, a message that is not binary comes only after the stream was closed
    without an error, no write is tried while the reader is to see an error, and no other error is
    recorded after the first one was returned. -/
def Tidy (w : Watch) : Act → Prop
  | .onOpen | .onMessage (.binary _) | .pollClose => True
  | .onMessage _ => w.inner.closed ∧ w.due = none ∧ w.returned = false
  | .onError => w.returned = false
  | .onClose code wasClean => w.returned → isCleanClose code wasClean
  | .pollOpen | .pollWrite _ _ => w.due = none
  | .pollRead n => 0 < n

/-- What holds in that order: an error that is due is in the slot, behind the bytes of the queue,
    and the stream is closed; after it was returned there is nothing more. -/
structure Inv (w : Watch) : Prop where
  queue : Queue w.inner
  live : w.due = none → w.inner.error = none
  due : ∀ p, w.due = some p → w.returned = false ∧ w.inner.error = some p.2 ∧
    p.1 = unread w.inner ∧ w.inner.closed
  drained : w.returned → w.inner.rxBuf = [] ∧ w.inner.closed

variable {g : Inner}

theorem inv_start (hqueue : Queue g) (herror : g.error = none) : Inv (Watch.start g) where
  queue := hqueue
  live _ := herror
  due _ h := nomatch h
  drained h := nomatch h

variable {w : Watch} {n : Nat}

theorem Inv.lawful (h : Inv w) {a : Act} (ha : w.Tidy a) : w.Lawful a := by
  cases a with
  | pollWrite bytes refusal =>
    intro hret
    simp [pollWrite, h.live ha, (h.drained hret).2, isFailure]
  | pollRead n =>
    by_cases hbuf : w.inner.rxBuf = []
    · have hnil := (unread_eq_nil_iff h.queue).2 hbuf
      have hpoll := pollRead_nil (n := n) (.inl hbuf)
      refine ⟨fun p hp => ?_, fun hret => ⟨[], ?_, fun _ => rfl⟩⟩
      · obtain ⟨-, herror, hleft, -⟩ := h.due p hp
        rw [Sees, if_pos (hleft.trans hnil), hpoll, herror]
      · have hdue : w.due = none := by
          cases hdue : w.due with
          | none => rfl
          | some p => exact absurd (hret.symm.trans (h.due p hdue).1) nofun
        rw [hpoll, h.live hdue]
        simp [(h.drained hret).2]
    · obtain ⟨bytes, g', hpoll, hne, -, hunread, -⟩ := pollRead_cons h.queue ha hbuf
      refine ⟨fun p hp => ?_, fun hret => absurd (h.drained hret).1 hbuf⟩
      have hleft := (h.due p hp).2.2.1.trans hunread
      have hsome : p.1 ≠ [] := fun hnil => hne (append_eq_nil_iff.1 (hleft.symm.trans hnil)).1
      rw [Sees, if_neg hsome, if_neg ha.ne', hpoll, hleft]
      exact ⟨bytes, hne, prefix_append _ _, rfl⟩
  | onOpen | onMessage _ | onError | onClose _ _ | pollOpen | pollClose => trivial

theorem Inv.read (h : Inv w) (hn : 0 < n) : Inv (w.step (.pollRead n)) := by
  by_cases hbuf : w.inner.rxBuf = []
  · have hpoll := pollRead_nil (n := n) (.inl hbuf)
    cases herror : w.inner.error with
    | some e =>
      have hdue : w.due ≠ none := fun hdue => by cases (h.live hdue).symm.trans herror
      obtain ⟨p, hp⟩ := ne_none_iff_exists'.1 hdue
      simp only [step, Inner.step, hpoll, herror]
      exact ⟨h.queue.congr rfl rfl rfl, fun _ => rfl, nofun, fun _ => ⟨hbuf, (h.due p hp).2.2.2⟩⟩
    | none =>
      have hdue : w.due = none := by
        cases hdue : w.due with
        | none => rfl
        | some p => cases herror.symm.trans (h.due p hdue).2.1
      cases hclosed : w.inner.closed with
      | true =>
        have hstep : w.step (.pollRead n) = w := by
          simp [step, Inner.step, hpoll, herror, hclosed]
        rwa [hstep]
      | false =>
        have hstep : w.step (.pollRead n) = { w with inner.readWaker := true } := by
          simp [step, Inner.step, hpoll, herror, hclosed]
        rw [hstep]
        exact ⟨h.queue.congr rfl rfl rfl, fun _ => herror,
          fun p hp => absurd (hdue.symm.trans hp) nofun, h.drained⟩
  · obtain ⟨bytes, g', hpoll, hne, -, hunread, hqueue, herror, hclosed, -⟩ :=
      pollRead_cons h.queue hn hbuf
    simp only [step, Inner.step, hpoll]
    refine ⟨hqueue, fun hdue => herror.trans (h.live (map_eq_none_iff.1 hdue)), fun p hp => ?_,
      fun hret => absurd (h.drained hret).1 hbuf⟩
    obtain ⟨q, hq, rfl⟩ := map_eq_some_iff.1 hp
    obtain ⟨hret, hslot, hleft, hc⟩ := h.due q hq
    exact ⟨hret, herror.trans hslot, by rw [hleft, hunread, drop_left], hclosed.trans hc⟩

/-- An event that leaves the queue alone, and closes the stream when it records an error. -/
theorem Inv.event (h : Inv w) {g : Inner} (hqueue : Queue g) (hopen : w.inner.closed → g.closed)
    (hbuf : w.due ≠ none ∨ w.returned → g.rxBuf = w.inner.rxBuf ∧ unread g = unread w.inner ∧
      g.error = w.inner.error)
    (herror : g.error ≠ none → g.closed) :
    Inv (if w.due = none ∧ w.returned = false then ⟨g, g.error.map fun e => (unread g, e), false⟩
      else { w with inner := g }) := by
  split
  · refine ⟨hqueue, fun hdue => map_eq_none_iff.1 hdue, fun p hp => ?_, nofun⟩
    obtain ⟨e, he, rfl⟩ := map_eq_some_iff.1 hp
    exact ⟨rfl, he, rfl, herror (he ▸ some_ne_none e)⟩
  · obtain ⟨hbuf, hunread, hslot⟩ := hbuf (by grind)
    refine ⟨hqueue, fun hdue => hslot.trans (h.live hdue), fun p hp => ?_, fun hret => ?_⟩
    · obtain ⟨hret, he, hleft, hc⟩ := h.due p hp
      exact ⟨hret, hslot.trans he, hleft.trans hunread.symm, hopen hc⟩
    · exact ⟨hbuf.trans (h.drained hret).1, hopen (h.drained hret).2⟩

theorem Inv.step (h : Inv w) {a : Act} (ha : w.Tidy a) : Inv (w.step a) := by
  have hclosed : w.due ≠ none ∨ w.returned → w.inner.closed := by
    rintro (hdue | hret)
    · obtain ⟨p, hp⟩ := ne_none_iff_exists'.1 hdue
      exact (h.due p hp).2.2.2
    · exact (h.drained hret).2
  have hslot : w.inner.error ≠ none → w.inner.closed := fun herror => hclosed
    (.inl fun hdue => herror (h.live hdue))
  -- A second error does not take the place of one that is due.
  have hor (e : IoError) (hdue : w.due ≠ none) : w.inner.error.or (some e) = w.inner.error := by
    obtain ⟨p, hp⟩ := ne_none_iff_exists'.1 hdue
    rw [(h.due p hp).2.1]
    rfl
  cases a with
  | pollRead n => exact h.read ha
  | pollWrite bytes refusal =>
    have herror := h.live ha
    have hinner : { w.inner with error := none } = w.inner := by rw [← herror]
    simpa [Watch.step, Inner.step, pollWrite_inner, herror, hinner] using h
  | pollOpen =>
    obtain ⟨waker, hinner⟩ := pollOpen_inner w.inner
    have hsame : w.inner.step .pollOpen = { w.inner with openWaker := waker } := by
      simp [Inner.step, hinner, h.live ha]
    simp only [Watch.step, hsame]
    exact h.event (h.queue.congr rfl rfl rfl) id (fun _ => ⟨rfl, rfl, rfl⟩) hslot
  | onMessage p =>
    cases p with
    | binary bytes =>
      refine h.event (g := w.inner.step (.onMessage (.binary bytes))) ?_ ?_ ?_ ?_
      all_goals
        rcases onMessage_binary w.inner bytes with ⟨-, -, hne, hopen, hfits, hm⟩ |
          ⟨-, -, hopen, hm⟩ | ⟨-, -, -, hm⟩
      · rw [Inner.step, hm]
        exact (h.queue.push hne hfits).1.congr rfl rfl rfl
      · rw [Inner.step, hm]
        exact Queue.empty rfl rfl rfl
      · rw [Inner.step, hm]
        exact h.queue
      all_goals grind [Inner.step, wakeRead, wakeOpen]
    | text s | other =>
      refine h.event (g := w.inner.step (.onMessage _)) (h.queue.congr rfl rfl rfl) id ?_ fun _ => ha.1
      grind [Tidy]
  | onOpen | onError | onClose code wasClean | pollClose =>
    refine h.event (g := w.inner.step _) (h.queue.congr rfl rfl rfl) ?_ ?_ ?_
    all_goals grind [Inner.step, onOpen, onError, onClose, pollClose, wakeRead, wakeOpen, unread,
      Tidy, isCleanClose]

end Watch

/-! ## Runs -/

/-- In every run of callbacks and polls that keeps to the order of `Tidy`, the reader sees the bytes
    queued before an error, the error and then the end, and nothing can be written after it. -/
theorem lawful_of_tidy {g : Inner} (hqueue : Queue g) (herror : g.error = none) (acts : List Act)
    (htidy : Always Watch.step Watch.Tidy (Watch.start g) acts) :
    Always Watch.step Watch.Lawful (Watch.start g) acts := by
  have h := Watch.inv_start hqueue herror
  generalize Watch.start g = w at h htidy
  induction acts generalizing w with
  | nil => trivial
  | cons a acts ih => exact ⟨h.lawful htidy.1, ih _ (h.step htidy.1) htidy.2⟩

/-- A message, the error event, and polls that read the message, the error and the end. -/
theorem lawful_error_after_message : Always Watch.step Watch.Lawful (Watch.start (onOpen new))
      [.onMessage (.binary [1, 2]), .onError, .pollRead 8, .pollRead 8, .pollRead 8,
        .pollWrite [3] none] := by
  refine lawful_of_tidy (Queue.empty rfl rfl rfl) rfl _ ?_
  simp [Watch.start, Watch.step, Watch.Tidy, step, onOpen, onError, onMessage,
    exceeds, maxWsBufferBytes, new, wakeRead, wakeOpen, pollRead, unread]

/-- A text message, after whose error the reader waits; an unclean close after the error, which is
    a second one; the error event, a write that is given the error, and a read that sees the end of
    the stream; and a read into no buffer, which is given the error before the bytes. -/
theorem not_lawful_after_error :
    ¬Always Watch.step Watch.Lawful (Watch.start (onOpen new))
      [.onMessage (.text "a"), .pollRead 1, .pollRead 1] ∧
    ¬Always Watch.step Watch.Lawful (Watch.start (onOpen new))
      [.onError, .pollRead 1, .onClose 1006 false, .pollRead 1] ∧
    ¬Always Watch.step Watch.Lawful (Watch.start (onOpen new))
      [.onError, .pollWrite [1] none, .pollRead 1] ∧
    ¬Always Watch.step Watch.Lawful (Watch.start (onOpen new))
      [.onMessage (.binary [1]), .onError, .pollRead 0] := by
  refine ⟨?_, ?_, ?_, ?_⟩
  · rintro ⟨-, -, ⟨-, hclosed⟩, -⟩
    obtain ⟨bytes, hready, -⟩ := hclosed rfl
    cases hready
  · rintro ⟨-, -, -, ⟨-, hclosed⟩, -⟩
    obtain ⟨bytes, hready, -⟩ := hclosed rfl
    cases hready
  · rintro ⟨-, -, ⟨hsees, -⟩, -⟩
    have hfailed := hsees ([], eventError) rfl
    rw [Watch.Sees] at hfailed
    cases hfailed
  · rintro ⟨-, -, ⟨hsees, -⟩, -⟩
    have hnone := hsees ([1], eventError) rfl
    rw [Watch.Sees] at hnone
    cases hnone

end ZeroProxy.Kernel.WsStream
