import Mathlib.Tactic.FinCases
import ZeroProxy.Ws.Client

/-!
# Messages out of frames

What the reader task makes of the frames of a server. The abstract side is `absorb`, which says
what a frame adds to the message that is open, whatever becomes of the messages; the reader is
shown to follow it frame by frame, in every interleaving with the caller and the writer task.
-/

namespace ZeroProxy.Ws

open Bool Bytes Client Http List Option Text

/-! ## Reassembly -/

/-- The kinds of messages. -/
inductive Kind
  | text
  | binary

namespace Kind

/-- The opcode of a kind. -/
def op : Kind → Opcode
  | text => .text
  | binary => .binary

/-- The message that a payload stands for. -/
def decode : Kind → Bytes → Option Message
  | text, payload => (fromUtf8 payload).map .text
  | binary, payload => some (.binary payload)

end Kind

abbrev Pending := Option (Kind × Bytes)

/-- What a frame that continues the protocol leads to: the message that is open after it, and the
    message it completes. -/
structure Absorbed where
  pending : Pending
  complete : Option (Kind × Bytes)

/-- A data frame of a kind, which begins a message. -/
def begin (k : Kind) (o : Pending) (f : Frame) : Option Absorbed :=
  if o.isSome ∨ maxWsBufferBytes < f.payload.length then none
  else if f.fin then some ⟨none, some (k, f.payload)⟩
  else some ⟨some (k, f.payload), none⟩

/-- A frame that continues a message. -/
def extend (o : Pending) (f : Frame) : Option Absorbed :=
  match o with
  | none => none
  | some (k, b) =>
    if maxWsBufferBytes < b.length + f.payload.length then none
    else if f.fin then some ⟨none, some (k, b ++ f.payload)⟩
    else some ⟨some (k, b ++ f.payload), none⟩

/-- What a frame leads to, unless it ends the stream: a Close, or a violation. -/
def absorb (o : Pending) (f : Frame) : Option Absorbed :=
  match f.op with
  | .continuation => extend o f
  | .text => begin .text o f
  | .binary => begin .binary o f
  | .ping => some ⟨o, none⟩
  | .pong => some ⟨o, none⟩
  | .close => none

def Reader.holding (o : Pending) (conn : Source UInt8) : Reader :=
  ⟨conn, o.map (·.1.op), (o.map (·.2)).getD [], true⟩

/-- The message that is open is not longer than the reader keeps. -/
def Bounded (o : Pending) : Prop := ∀ m ∈ o, m.2.length ≤ maxWsBufferBytes

theorem bounded_none : Bounded none := nofun

/-- What is answered to a frame: the message it completes is delivered, a Ping gets a Pong. -/
def Shared.answer (s : Shared) (f : Frame) (complete : Option (Kind × Bytes)) :
    Shared × List Event :=
  match complete with
  | some (k, b) => s.deliverMessage k.op b
  | none => if f.op = .ping ∧ s.closedLocal = false then s.push (.pong f.payload) else (s, [])

open Shared

/-- The reader goes on with what a frame leads to, or fails where it leads to nothing. -/
def Follows (o : Pending) (f : Frame) (x : Option Absorbed) (s : Shared) (conn : Source UInt8) :
    Prop :=
  (∃ y, x = some y ∧ Bounded y.pending ∧
      (Reader.holding o conn).onFrame s f = (.holding y.pending conn, s.answer f y.complete)) ∨
    (x = none ∧ ∃ e, (Reader.holding o conn).onFrame s f = (Reader.holding o conn).fail s e)

variable {k : Kind} {f : Frame}

theorem follows_begin (hop : f.op = k.op) (o : Pending) (s : Shared)
    (conn : Source UInt8) : Follows o f (begin k o f) s conn := by
  have hdata : f.op = .text ∨ f.op = .binary := by
    rw [hop]
    cases k
    · exact .inl rfl
    · exact .inr rfl
  have hisSome : (Reader.holding o conn).fragOp.isSome = o.isSome := isSome_map
  rw [begin]
  split_ifs with hno hfin
  · refine .inr ⟨rfl, ?_⟩
    rw [Reader.onFrame_data hdata, hisSome]
    by_cases ho : o.isSome
    · exact ⟨_, if_pos ho⟩
    · rw [if_neg ho]
      exact ⟨_, if_pos (hno.resolve_left ho)⟩
  · obtain ⟨ho, hlen⟩ := not_or.1 hno
    refine .inl ⟨_, rfl, bounded_none, ?_⟩
    rw [Reader.onFrame_data hdata, if_neg hlen, if_pos hfin, hop]
    rw [not_isSome_iff_eq_none.1 ho]
    rfl
  obtain ⟨ho, hlen⟩ := not_or.1 hno
  refine .inl ⟨_, rfl, ?_, ?_⟩
  · rintro m ⟨⟩
    exact not_lt.1 hlen
  · have hne : ¬(f.op = .ping ∧ s.closedLocal = false) := by
      rcases hdata with h | h <;> rw [h] <;> exact fun hp => by cases hp.1
    rw [Reader.onFrame_data hdata, hisSome, if_neg ho, if_neg hlen, if_neg hfin, answer,
      if_neg hne, hop]
    rfl

variable {o : Pending}

theorem follows_extend (hop : f.op = .continuation) (ho : Bounded o)
    (s : Shared) (conn : Source UInt8) : Follows o f (extend o f) s conn := by
  obtain _ | ⟨k, b⟩ := o
  · exact .inr ⟨rfl, _, by simp [Reader.onFrame, Reader.holding, hop]; rfl⟩
  have hb : b.length ≤ maxWsBufferBytes := ho _ rfl
  -- The reader compares with the room that is left, which is the same.
  have hroom : maxWsBufferBytes - b.length < f.payload.length ↔
      maxWsBufferBytes < b.length + f.payload.length := by omega
  rw [extend]
  split_ifs with hlong hfin
  · exact .inr ⟨rfl, _, by simp [Reader.onFrame, Reader.holding, hop, hroom, hlong]; rfl⟩
  · refine .inl ⟨_, rfl, bounded_none, ?_⟩
    simp [Reader.onFrame, Reader.holding, answer, hop, hfin, hroom, hlong]
  · refine .inl ⟨_, rfl, ?_, ?_⟩
    · rintro m ⟨⟩
      rw [length_append]
      exact not_lt.1 hlong
    · simp [Reader.onFrame, Reader.holding, answer, hop, hfin, hroom, hlong]

theorem follows_absorb (ho : Bounded o)
    (hclose : f.op = .close → ∀ peer, decodeClosePayload f.payload ≠ .ok peer) (s : Shared)
    (conn : Source UInt8) : Follows o f (absorb o f) s conn := by
  cases hop : f.op with
  | continuation =>
    rw [absorb, hop]
    exact follows_extend hop ho s conn
  | text | binary =>
    rw [absorb, hop]
    exact follows_begin hop o s conn
  | ping =>
    refine .inl ⟨⟨o, none⟩, by rw [absorb, hop], ho, ?_⟩
    cases hc : s.closedLocal <;> simp [Reader.onFrame, answer, hop, hc]
  | pong =>
    refine .inl ⟨⟨o, none⟩, by rw [absorb, hop], ho, ?_⟩
    simp [Reader.onFrame, answer, hop]
  | close =>
    refine .inr ⟨by rw [absorb, hop], ?_⟩
    cases hd : decodeClosePayload f.payload with
    | ok peer => exact absurd hd (hclose hop peer)
    | error e => exact ⟨e, by simp [Reader.onFrame, hop, hd]⟩

/-- What frames lead to, one after the other: the message that is open after them, and those they
    complete. -/
def assemble : Pending → List Frame → Option (Pending × List (Kind × Bytes))
  | o, [] => some (o, [])
  | o, f :: fs =>
    (absorb o f).bind fun x =>
      (assemble x.pending fs).map fun y => (y.1, x.complete.toList ++ y.2)

variable {ms : List (Kind × Bytes)}

theorem assemble_append {o' : Pending} {fs : List Frame}
    (h : assemble o fs = some (o', ms)) (gs : List Frame) :
    assemble o (fs ++ gs) = (assemble o' gs).map fun y => (y.1, ms ++ y.2) := by
  induction fs generalizing o ms with
  | nil =>
    cases h
    rw [nil_append]
    cases assemble o' gs <;> rfl
  | cons f fs ih =>
    rw [assemble, bind_eq_some_iff] at h
    obtain ⟨x, hx, h⟩ := h
    obtain ⟨⟨o'', ms'⟩, hy, h⟩ := map_eq_some_iff.1 h
    cases h
    rw [cons_append, assemble, hx, bind_some, ih hy]
    simp [Function.comp_def]

theorem assemble_filter {fs : List Frame} (hclose : ∀ f ∈ fs, f.op ≠ .close) (o : Pending) :
    assemble o (fs.filter (!·.op.isControl)) = assemble o fs := by
  induction fs generalizing o with
  | nil => rfl
  | cons f fs ih =>
    rw [forall_mem_cons] at hclose
    by_cases hf : f.op.isControl
    · have hop : absorb o f = some ⟨o, none⟩ := by
        cases h : f.op with
        | close => exact absurd h hclose.1
        | ping | pong => rw [absorb, h]
        | continuation | text | binary =>
          rw [h] at hf
          cases hf
      rw [filter_cons_of_neg (by rw [hf]; decide), ih hclose.2, assemble, hop, bind_some]
      cases assemble o fs <;> rfl
    · rw [filter_cons_of_pos (by simpa using hf), assemble, assemble]
      simp [ih hclose.2]

/-! ## Messages in fragments -/

def Message.kind : Message → Kind
  | .text _ => .text
  | .binary _ => .binary

theorem decode_payload (m : Message) : m.kind.decode m.payload = some m := by
  cases m with
  | text t => exact congrArg (Option.map Message.text) (fromUtf8_utf8 t)
  | binary b => rfl

/-- The frames of a payload in pieces; `last` says whether the last of them ends the message. -/
def fragments (last : Bool) (op : Opcode) (p : Bytes) : List Bytes → List Frame
  | [] => [⟨last, op, p⟩]
  | q :: qs => ⟨false, op, p⟩ :: fragments last .continuation q qs

/-- A message that is sent in one or more fragments, any of which may be empty. -/
structure Sending where
  message : Message
  first : Bytes
  rest : List Bytes
  joins : first ++ rest.flatten = message.payload
  fits : message.payload.length ≤ maxWsBufferBytes

def Sending.frames (x : Sending) : List Frame := fragments true x.message.kind.op x.first x.rest

/-- A message of which some fragments were sent, but not the last one. -/
structure Begun where
  kind : Kind
  first : Bytes
  rest : List Bytes
  fits : (first ++ rest.flatten).length ≤ maxWsBufferBytes

def Begun.frames (x : Begun) : List Frame := fragments false x.kind.op x.first x.rest

def pendingOf (begun : Option Begun) : Pending := begun.map fun x => (x.kind, x.first ++ x.rest.flatten)

/-- What fragments lead to: a message, or one that is open. -/
def gathered (last : Bool) (k : Kind) (b : Bytes) : Pending × List (Kind × Bytes) :=
  if last then (none, [(k, b)]) else (some (k, b), [])

variable {b p t : Bytes}

theorem assemble_continuations {last : Bool} {qs : List Bytes}
    (h : (b ++ (p ++ qs.flatten)).length ≤ maxWsBufferBytes) :
    assemble (some (k, b)) (fragments last .continuation p qs) =
      some (gathered last k (b ++ (p ++ qs.flatten))) := by
  induction qs generalizing b p with
  | nil =>
    rw [flatten_nil, append_nil, length_append] at h
    rw [fragments, assemble, absorb, extend, if_neg (not_lt.2 h), flatten_nil, append_nil]
    cases last <;> rfl
  | cons q qs ih =>
    rw [← append_assoc] at h
    have hp : ¬maxWsBufferBytes < b.length + p.length := by
      rw [length_append, length_append] at h
      omega
    rw [fragments, assemble, absorb, extend, if_neg hp, if_neg Bool.false_ne_true,
      bind_some, ih h, ← append_assoc b]
    rfl

theorem assemble_fragments {last : Bool} {qs : List Bytes}
    (h : (p ++ qs.flatten).length ≤ maxWsBufferBytes) :
    assemble none (fragments last k.op p qs) = some (gathered last k (p ++ qs.flatten)) := by
  have hp : ¬((none : Pending).isSome ∨ maxWsBufferBytes < p.length) := by
    rw [length_append] at h
    rintro (h' | h')
    · cases h'
    · omega
  have habsorb : ∀ fin, absorb none ⟨fin, k.op, p⟩ = begin k none ⟨fin, k.op, p⟩ := by
    intro fin
    cases k <;> rfl
  cases qs with
  | nil =>
    rw [fragments, assemble, habsorb, begin, if_neg hp, flatten_nil, append_nil]
    cases last <;> rfl
  | cons q qs =>
    rw [fragments, assemble, habsorb, begin, if_neg hp, if_neg Bool.false_ne_true,
      bind_some, assemble_continuations h]
    rfl

/-- The frames that a server sends for messages: their fragments in order, and Pings and Pongs
    between any two of them. -/
structure Stream (sendings : List Sending) (begun : Option Begun) where
  frames : List WireFrame
  data : (frames.map (·.toFrame)).filter (!·.op.isControl) =
    sendings.flatMap Sending.frames ++ begun.elim [] Begun.frames
  noClose : ∀ w ∈ frames, w.op ≠ .close

def Stream.bytes {sendings : List Sending} {begun : Option Begun} (x : Stream sendings begun) :
    Bytes := x.frames.flatMap WireFrame.encode

theorem assemble_sendings (sendings : List Sending) :
    assemble none (sendings.flatMap Sending.frames) =
      some (none, sendings.map fun x => (x.message.kind, x.message.payload)) := by
  induction sendings with
  | nil => rfl
  | cons x sendings ih =>
    have hx : assemble none x.frames = some (none, [(x.message.kind, x.message.payload)]) := by
      have hfits := x.fits
      rw [← x.joins] at hfits ⊢
      exact assemble_fragments hfits
    rw [flatMap_cons, assemble_append hx, ih]
    rfl

theorem Stream.assembled {sendings : List Sending} {begun : Option Begun}
    (x : Stream sendings begun) : assemble none (x.frames.map (·.toFrame)) =
      some (pendingOf begun, sendings.map fun x => (x.message.kind, x.message.payload)) := by
  have hclose : ∀ f ∈ x.frames.map (·.toFrame), f.op ≠ .close := by
    intro f hf
    obtain ⟨w, hw, rfl⟩ := mem_map.1 hf
    exact x.noClose w hw
  rw [← assemble_filter hclose, x.data, assemble_append (assemble_sendings sendings)]
  cases begun with
  | none => simp [assemble, pendingOf]
  | some b =>
    have hb : assemble none b.frames = some (pendingOf (some b), []) := assemble_fragments b.fits
    rw [elim_some, hb, map_some, append_nil]

/-! ## The client with its connection open -/

/-- The connection is open and a message handler is there; the reader task has a message open, and
    the bytes are still to come. -/
structure Live (c : Client) (o : Pending) (b : Bytes) : Prop where
  reader : ∃ conn, c.reader = .holding o conn ∧ conn.bytes = b
  bounded : Bounded o
  message : c.shared.handlers.message
  notClosed : ¬c.shared.closed
  peerClose : c.shared.peerClose = none
  queue : ∀ m ∈ c.shared.queue, m.op.isControl → m.payload.length ≤ 125
  writer : c.writer = .idle ∨ c.writer = .writing

/-- A step that leaves the connection open: no abort, no close with a code or reason that is not
    allowed, and a transport and a source of keys that work. -/
def Action.Benign : Action → Prop
  | .read | .shut | .send _ => True
  | .poll key => ∃ k, key = .ok k
  | .wrote ok => ok
  | .close code reason =>
    isLocalCloseCode (code.getD 1000) ∧ (utf8 (reason.getD [])).length ≤ 123
  | .setHandlers _ | .abort => False

def Action.isRead : Action → Bool
  | .read => true
  | _ => false

/-- A call of `close`. -/
def Action.isClose : Action → Bool
  | .close _ _ => true
  | _ => false

/-- What a step of another party leaves as it was. -/
structure Undisturbed (c c' : Client) (a : Action) (events : List Event) : Prop where
  delivered : delivered events = []
  pongs : pongs events = []
  handlers : c'.shared.handlers = c.shared.handlers
  closedLocal : c'.shared.closedLocal = (c.shared.closedLocal || a.isClose)

variable {c : Client}

theorem Live.poll (h : Live c o b) (k : Bytes) :
    Live (c.poll (.ok k)).1 o b ∧ Undisturbed c (c.poll (.ok k)).1 (.poll (.ok k)) (c.poll (.ok k)).2 := by
  have hsame : Live c o b ∧ Undisturbed c c (.poll (.ok k)) [] :=
    ⟨h, rfl, rfl, rfl, (Bool.or_false _).symm⟩
  rw [Client.poll]
  rcases h.writer with hw | hw
  · rw [hw]
    rw [if_neg h.notClosed]
    cases hq : c.shared.queue with
    | nil =>
      rw [h.peerClose]
      exact hsame
    | cons m queue =>
      have hqueue := h.queue
      rw [hq, forall_mem_cons] at hqueue
      obtain ⟨frame, hframe⟩ := exists_encodeFrame hqueue.1 k
      dsimp only
      rw [hframe]
      exact ⟨⟨h.reader, h.bounded, h.message, h.notClosed, h.peerClose, hqueue.2, .inr rfl⟩,
        rfl, rfl, rfl, (Bool.or_false _).symm⟩
  · rw [hw]
    exact hsame

theorem Live.wrote (h : Live c o b) :
    Live (c.wrote true).1 o b ∧ Undisturbed c (c.wrote true).1 (.wrote true) (c.wrote true).2 := by
  rw [Client.wrote]
  rcases h.writer with hw | hw
  · rw [hw]
    exact ⟨h, rfl, rfl, rfl, (Bool.or_false _).symm⟩
  · rw [hw]
    rw [if_neg h.notClosed]
    exact ⟨⟨h.reader, h.bounded, h.message, h.notClosed, h.peerClose, h.queue, .inl rfl⟩,
      rfl, rfl, rfl, (Bool.or_false _).symm⟩

theorem Live.shut (h : Live c o b) : Live c.shut.1 o b ∧ Undisturbed c c.shut.1 .shut c.shut.2 := by
  rw [Client.shut]
  rcases h.writer with hw | hw <;> rw [hw] <;>
    exact ⟨h, rfl, rfl, rfl, (Bool.or_false _).symm⟩

variable {s : Shared}

theorem Live.queued (h : Live c o b) (hs : s.handlers.message ∧ ¬s.closed ∧ s.peerClose = none ∧
      s.queue = c.shared.queue) {m : OutMsg} (hm : m.op.isControl → m.payload.length ≤ 125) :
    Live (c.call (s.push m)).1 o b := by
  refine ⟨h.reader, h.bounded, hs.1, hs.2.1, hs.2.2.1, ?_, h.writer⟩
  intro m' hm'
  rw [call, push, hs.2.2.2, mem_append, mem_singleton] at hm'
  rcases hm' with hm' | rfl
  · exact h.queue m' hm'
  · exact hm

theorem Live.send (h : Live c o b) (data : Option Message) :
    Live (c.call (c.shared.send data)).1 o b ∧
      Undisturbed c (c.call (c.shared.send data)).1 (.send data) (c.call (c.shared.send data)).2 := by
  rw [send.eq_def]
  split_ifs with hclosed
  · exact ⟨h, rfl, rfl, rfl, (Bool.or_false _).symm⟩
  cases data with
  | none => exact ⟨h, rfl, rfl, rfl, (Bool.or_false _).symm⟩
  | some m =>
    refine ⟨@Live.queued o b c { c.shared with
        buffered := min (c.shared.buffered + m.payload.length) Kernel.usizeMax }
      h ⟨h.message, h.notClosed, h.peerClose, rfl⟩ (.data m) ?_, rfl, rfl, rfl,
      (Bool.or_false _).symm⟩
    intro hm
    cases m <;> cases hm

theorem Live.close (h : Live c o b) {code : Option Nat}
    {reason : Option Text} (hbenign : (Action.close code reason).Benign) :
    Live (c.call (c.shared.close code reason)).1 o b ∧
      Undisturbed c (c.call (c.shared.close code reason)).1 (.close code reason)
        (c.call (c.shared.close code reason)).2 := by
  obtain ⟨hcode, hreason⟩ := hbenign
  have hvalid : ¬((!isLocalCloseCode (code.getD 1000) ||
      decide (123 < (utf8 (reason.getD [])).length))) := by
    rw [hcode, Bool.not_true, Bool.false_or, decide_eq_true_eq]
    exact not_lt.2 hreason
  rw [Shared.close, if_neg h.notClosed]
  rw [if_neg hvalid]
  split_ifs with hlocal
  · refine ⟨h, rfl, rfl, rfl, ?_⟩
    show c.shared.closedLocal = (c.shared.closedLocal || true)
    rw [hlocal, Bool.true_or]
  refine ⟨@Live.queued o b c { c.shared with closedLocal := true } h
    ⟨h.message, h.notClosed, h.peerClose, rfl⟩ (.close _) ?_, rfl, rfl, rfl, ?_⟩
  · intro _
    show (bigEndian 2 (code.getD 1000) ++ utf8 (reason.getD [])).length ≤ 125
    rw [length_append, length_bigEndian]
    omega
  · show true = (c.shared.closedLocal || true)
    rw [Bool.or_true]

theorem Live.step {a : Action} (h : Live c o b) (hbenign : a.Benign) (hread : a.isRead = false) :
    Live (c.step a).1 o b ∧ Undisturbed c (c.step a).1 a (c.step a).2 := by
  cases a with
  | read => cases hread
  | poll key =>
    obtain ⟨k, rfl⟩ := hbenign
    exact h.poll k
  | wrote ok =>
    cases hbenign
    exact h.wrote
  | shut => exact h.shut
  | setHandlers handlers | abort => cases hbenign
  | send data => exact h.send data
  | close code reason => exact h.close hbenign

theorem Live.step_read (h : Live c o b)
    (hparse : readFrame.parse b = .ok f t) : ∃ conn, conn.bytes = t ∧
      c.step .read =
        (let out := (Reader.holding o conn).onFrame c.shared f
        ({ c with reader := out.1, shared := out.2.1 }, out.2.2)) := by
  obtain ⟨conn, hreader, hbytes⟩ := h.reader
  rw [← hbytes] at hparse
  obtain ⟨conn', hrun, hbytes', -⟩ := Decoder.exists_run_of_parse hparse
  refine ⟨conn', hbytes', ?_⟩
  have hstep : c.reader.step c.shared = (Reader.holding o conn').onFrame c.shared f := by
    have hconn : c.reader.conn = conn := by rw [hreader]; rfl
    rw [Reader.step_of_running (by rw [hreader]; rfl) h.notClosed, hconn, hrun, hreader]
    rfl
  rw [Client.step, hstep]

theorem deliverMessage_of_decode {m : Message} (hs : s.handlers.message) (h : k.decode b = some m) :
    s.deliverMessage k.op b = (s, [.message m]) := by
  cases k with
  | text =>
    obtain ⟨t, ht, rfl⟩ := map_eq_some_iff.1 h
    simp [deliverMessage, Kind.op, hs, ht]
  | binary =>
    cases h
    simp [deliverMessage, Kind.op, hs]

theorem deliverMessage_of_not_decode (hs : s.handlers.message) (h : k.decode b = none) :
    s.deliverMessage k.op b = s.failConnection "invalid UTF-8 in text frame" := by
  cases k with
  | text => simp [deliverMessage, Kind.op, hs, map_eq_none_iff.1 h]
  | binary => cases h

variable {x : Absorbed}

theorem op_of_complete {m : Kind × Bytes}
    (h : absorb o f = some x) (hm : x.complete = some m) : f.op ≠ .ping := by
  intro hop
  rw [absorb, hop] at h
  cases h
  cases hm

theorem op_of_absorb (h : absorb o f = some x) : f.op ≠ .close := by
  intro hop
  rw [absorb, hop] at h
  cases h

theorem Live.read (h : Live c o b) (hparse : readFrame.parse b = .ok f t) (hx : absorb o f = some x)
    (hcontrol : f.op.isControl → f.payload.length ≤ 125)
    (hdecode : ∀ m ∈ x.complete, (m.1.decode m.2).isSome) :
    Live (c.step .read).1 x.pending t ∧
      delivered (c.step .read).2 = x.complete.toList.filterMap (fun m => m.1.decode m.2) ∧
      pongs (c.step .read).2 =
        (if f.op = .ping ∧ c.shared.closedLocal = false then [f.payload] else []) ∧
      (c.step .read).1.shared.handlers = c.shared.handlers ∧
      (c.step .read).1.shared.closedLocal = c.shared.closedLocal := by
  obtain ⟨conn, hconn, hstep⟩ := h.step_read hparse
  have hfollows := follows_absorb h.bounded (fun hop => absurd hop (op_of_absorb hx)) c.shared conn
  rw [hx] at hfollows
  obtain ⟨_, ⟨⟩, hbounded, hframe⟩ | ⟨hnone, -⟩ := hfollows
  · rw [hstep, hframe]
    rw [answer.eq_def]
    cases hc : x.complete with
    | some m =>
      obtain ⟨m, hm⟩ := isSome_iff_exists.1 (hdecode _ hc)
      dsimp only
      rw [deliverMessage_of_decode h.message hm, if_neg (fun hp => op_of_complete hx hc hp.1)]
      refine ⟨⟨⟨conn, rfl, hconn⟩, hbounded, h.message, h.notClosed, h.peerClose, h.queue, h.writer⟩,
        ?_, rfl, rfl, rfl⟩
      simp [delivered, hm]
    | none =>
      split_ifs with hping
      · have hq := (@Live.queued o b c c.shared h ⟨h.message, h.notClosed, h.peerClose, rfl⟩
          (.pong f.payload) fun _ => hcontrol (by rw [hping.1]; rfl)).queue
        exact ⟨⟨⟨conn, rfl, hconn⟩, hbounded, h.message, h.notClosed, h.peerClose, hq, h.writer⟩,
          rfl, rfl, rfl, rfl⟩
      · exact ⟨⟨⟨conn, rfl, hconn⟩, hbounded, h.message, h.notClosed, h.peerClose, h.queue,
          h.writer⟩, rfl, rfl, rfl, rfl⟩
  · cases hnone

/-- The Pings that get a Pong in an interleaving: those that are read before `close` is called. -/
def answered : Bool → List Action → List Frame → List Bytes
  | _, [], _ => []
  | closed, a :: acts, fs =>
    if a.isRead then
      match fs with
      | [] => []
      | f :: fs =>
        (if f.op = .ping ∧ closed = false then [f.payload] else []) ++ answered closed acts fs
    else answered (closed || a.isClose) acts fs

/-- What a run comes to in which the reader has its turn once for each frame. -/
structure Through (c c' : Client) (events : List Event) (acts : List Action) (o : Pending)
    (t : Bytes) (fs : List Frame) (ms : List (Kind × Bytes)) : Prop where
  live : Live c' o t
  delivered : delivered events = ms.filterMap fun m => m.1.decode m.2
  pongs : pongs events = answered c.shared.closedLocal acts fs
  handlers : c'.shared.handlers = c.shared.handlers

theorem Live.run {o' : Pending} {frames : List WireFrame} {acts : List Action}
    (h : Live c o (frames.flatMap WireFrame.encode ++ t))
    (hassemble : assemble o (frames.map (·.toFrame)) = some (o', ms))
    (hdecode : ∀ m ∈ ms, (m.1.decode m.2).isSome) (hbenign : ∀ a ∈ acts, a.Benign)
    (hreads : acts.countP Action.isRead = frames.length) :
    Through c (c.run acts).1 (c.run acts).2 acts o' t (frames.map (·.toFrame)) ms := by
  -- By induction on the interleaving: a turn of the reader takes a frame off, the others none.
  induction acts generalizing c o frames ms with
  | nil =>
    rw [length_eq_zero_iff.1 hreads.symm] at h hassemble ⊢
    cases hassemble
    exact ⟨h, rfl, rfl, rfl⟩
  | cons a acts ih =>
    rw [forall_mem_cons] at hbenign
    rw [run_cons]
    by_cases ha : a.isRead
    · cases a with
      | read =>
        rw [countP_cons_of_pos ha] at hreads
        cases frames with
        | nil => cases hreads
        | cons w frames =>
          rw [flatMap_cons, append_assoc] at h
          rw [map_cons, assemble, bind_eq_some_iff] at hassemble
          obtain ⟨x, hx, hassemble⟩ := hassemble
          obtain ⟨⟨o'', ms'⟩, hrest, heq⟩ := map_eq_some_iff.1 hassemble
          cases heq
          obtain ⟨hlive, hdelivered, hpongs, hhandlers, hlocal⟩ :=
            h.read (parse_encode w _) hx (fun hc => (w.control hc).2)
              (fun m hm => hdecode m (mem_append_left _ (mem_toList.2 hm)))
          have hnext := ih hlive hrest (fun m hm => hdecode m (mem_append_right _ hm))
            hbenign.2 (Nat.succ.inj hreads)
          refine ⟨hnext.live, ?_, ?_, hnext.handlers.trans hhandlers⟩
          · rw [delivered_append, hdelivered, hnext.delivered, filterMap_append]
          · rw [pongs_append, hpongs, hnext.pongs, hlocal]
            rfl
      | _ => cases ha
    · rw [not_eq_true] at ha
      rw [countP_cons_of_neg (by rw [ha]; decide)] at hreads
      obtain ⟨hlive, hsame⟩ := h.step hbenign.1 ha
      have hnext := ih hlive hassemble hdecode hbenign.2 hreads
      refine ⟨hnext.live, ?_, ?_, hnext.handlers.trans hsame.handlers⟩
      · rw [delivered_append, hsame.delivered, hnext.delivered, nil_append]
      · rw [pongs_append, hsame.pongs, hnext.pongs, nil_append, hsame.closedLocal,
          answered.eq_def _ (a :: acts)]
        dsimp only
        rw [ha, if_neg Bool.false_ne_true]

/-! ## The end of the connection -/

theorem step_of_closed (h : c.shared.closed) (a : Action) :
    (c.step a).1.shared.closed ∧ (c.step a).1.shared.closeCode = c.shared.closeCode ∧
      delivered (c.step a).2 = [] := by
  cases a with
  | read =>
    have hread : (c.reader.step c.shared).2 = (c.shared, []) := by
      rw [Reader.step, h, if_pos rfl]
      split_ifs <;> rfl
    rw [step]
    rw [hread]
    exact ⟨h, rfl, rfl⟩
  | poll key =>
    rw [step, poll, h]
    cases c.writer <;> exact ⟨h, rfl, rfl⟩
  | wrote ok =>
    rw [step, wrote, h]
    cases c.writer <;> exact ⟨h, rfl, rfl⟩
  | shut =>
    rw [step, shut]
    cases c.writer with
    | closing peer =>
      dsimp only
      rw [surfaceClose, h]
      exact ⟨h, rfl, rfl⟩
    | _ => exact ⟨h, rfl, rfl⟩
  | setHandlers handlers =>
    cases handlers with
    | none => exact ⟨h, rfl, rfl⟩
    | some handlers =>
      refine ⟨h, rfl, ?_⟩
      rw [step, setHandlers]
      split_ifs <;> rfl
  | send data =>
    rw [step, send.eq_def, h]
    exact ⟨h, rfl, rfl⟩
  | close code reason =>
    rw [step, close, h]
    exact ⟨h, rfl, rfl⟩
  | abort =>
    rw [step, abort, surfaceClose, h]
    exact ⟨h, rfl, rfl⟩

theorem run_of_closed (h : c.shared.closed) (acts : List Action) :
    (c.run acts).1.shared.closed ∧ (c.run acts).1.shared.closeCode = c.shared.closeCode ∧
      delivered (c.run acts).2 = [] := by
  induction acts generalizing c with
  | nil => exact ⟨h, rfl, rfl⟩
  | cons a acts ih =>
    obtain ⟨hclosed, hcode, hnone⟩ := step_of_closed h a
    obtain ⟨hclosed', hcode', hnone'⟩ := ih hclosed
    rw [run_cons]
    exact ⟨hclosed', hcode'.trans hcode, by rw [delivered_append, hnone, hnone']; rfl⟩

/-- The ways in which a stream departs from the protocol, with a message open or not: two bytes of
    a header, a whole header, or a whole frame that shows it. -/
inductive Departs (o : Pending) : Bytes → Prop
  | rsv {b0 b1 : UInt8} (h : b0 &&& 0x70 ≠ 0) : Departs o [b0, b1]
  | opcode {b0 b1 : UInt8} (h : Opcode.fromU8 (b0 &&& 0x0f) = none) : Departs o [b0, b1]
  | masked {b0 b1 : UInt8} (h : b1 &&& 0x80 ≠ 0) : Departs o [b0, b1]
  /-- A control frame that is fragmented or over-long. -/
  | control {fin : Bool} {op : Opcode} {form : LengthForm} {len : Nat} (hform : len < form.room)
      (hop : op.isControl) (h : fin = false ∨ 125 < len) : Departs o (header fin op form len)
  /-- A frame over the cap. -/
  | tooLong {fin : Bool} {op : Opcode} {len : Nat} (hform : len < UInt64.size)
      (h : maxWsBufferBytes < len) : Departs o (header fin op .long len)
  /-- A continuation without a start. -/
  | orphan (w : WireFrame) (hop : w.op = .continuation) (ho : o = none) : Departs o w.encode
  /-- A new data frame inside a fragmented message. -/
  | midFragment (w : WireFrame) (k : Kind) (hop : w.op = k.op) (ho : o ≠ none) :
      Departs o w.encode
  /-- A message over the cap. -/
  | overCap (w : WireFrame) {k : Kind} {b : Bytes} (hop : w.op = .continuation) (ho : o = some (k, b))
      (h : maxWsBufferBytes < b.length + w.payload.length) : Departs o w.encode
  /-- Text that is not UTF-8, in one frame. -/
  | badText (w : WireFrame) (hop : w.op = .text) (hfin : w.fin) (ho : o = none)
      (h : fromUtf8 w.payload = none) : Departs o w.encode
  /-- Text that is not UTF-8, in fragments. -/
  | badLast (w : WireFrame) {b : Bytes} (hop : w.op = .continuation) (hfin : w.fin)
      (ho : o = some (.text, b)) (h : fromUtf8 (b ++ w.payload) = none) : Departs o w.encode
  /-- A Close that cannot be read. -/
  | badClose (w : WireFrame) (hop : w.op = .close)
      (h : ∀ peer, decodeClosePayload w.payload ≠ .ok peer) : Departs o w.encode

/-- What a failure of the connection is, from the outside. -/
structure Fails (c c' : Client) (events : List Event) : Prop where
  closed : c'.shared.closed
  code : c'.shared.closeCode = 1006
  events : ∃ e, events = (if c.shared.handlers.error then [.error e] else []) ++
    if c.shared.handlers.close then [.close 1006 []] else []

theorem Fails.run {a : Action} (h : Fails c (c.step a).1 (c.step a).2) (acts : List Action) :
    (c.run (a :: acts)).1.shared.closed ∧ (c.run (a :: acts)).1.shared.closeCode = 1006 ∧
      delivered (c.run (a :: acts)).2 = [] := by
  obtain ⟨hclosed, hcode, hnone⟩ := run_of_closed h.closed acts
  rw [run_cons]
  refine ⟨hclosed, hcode.trans h.code, ?_⟩
  obtain ⟨e, hevents⟩ := h.events
  rw [delivered_append, hnone, hevents]
  split_ifs <;> rfl

theorem fails_of_failConnection {c' : Client} {e : Text} (h : ¬c.shared.closed)
    (hshared : c'.shared = (c.shared.failConnection e).1) :
    Fails c c' (c.shared.failConnection e).2 := by
  rw [failConnection, if_neg h, surfaceClose, if_neg h] at hshared ⊢
  exact ⟨by rw [hshared], by rw [hshared], e, rfl⟩

theorem Live.fails_of_parse {e : FrameError}
    (h : Live c o b) (hparse : readFrame.parse b = .error e) :
    Fails c (c.step .read).1 (c.step .read).2 := by
  obtain ⟨conn, hreader, hbytes⟩ := h.reader
  have hconn : c.reader.conn = conn := by rw [hreader]; rfl
  have hrun : readFrame.run c.reader.conn = .error e := by
    rw [hconn]
    exact Decoder.run_of_parse_error (by rw [hbytes, hparse])
  have hstep : c.reader.step c.shared =
      c.reader.fail c.shared "WebSocket transport ended without a Close frame" := by
    rw [Reader.step_of_running (by rw [hreader]; rfl) h.notClosed, hrun]
  rw [Client.step, hstep]
  exact fails_of_failConnection h.notClosed rfl

theorem Live.fails_of_absorb (h : Live c o b)
    (hparse : readFrame.parse b = .ok f t) (hx : absorb o f = none)
    (hclose : f.op = .close → ∀ peer, decodeClosePayload f.payload ≠ .ok peer) :
    Fails c (c.step .read).1 (c.step .read).2 := by
  obtain ⟨conn, -, hstep⟩ := h.step_read hparse
  have hfollows := follows_absorb h.bounded hclose c.shared conn
  rw [hx] at hfollows
  obtain ⟨_, hsome, -⟩ | ⟨-, e, hframe⟩ := hfollows
  · cases hsome
  · rw [hstep, hframe]
    exact fails_of_failConnection h.notClosed rfl

theorem Live.fails_of_decode (h : Live c o b) (hparse : readFrame.parse b = .ok f t)
    (hx : absorb o f = some x) (hcomplete : x.complete = some (k, p)) (hdecode : k.decode p = none) :
    Fails c (c.step .read).1 (c.step .read).2 := by
  obtain ⟨conn, -, hstep⟩ := h.step_read hparse
  have hfollows := follows_absorb h.bounded (fun hop => absurd hop (op_of_absorb hx)) c.shared conn
  rw [hx] at hfollows
  obtain ⟨_, ⟨⟩, -, hframe⟩ | ⟨hnone, -⟩ := hfollows
  · rw [hstep, hframe, hcomplete]
    simp only [answer, deliverMessage_of_not_decode h.message hdecode]
    exact fails_of_failConnection h.notClosed rfl
  · cases hnone

theorem absorb_data (hop : f.op = k.op) (o : Pending) : absorb o f = begin k o f := by
  rw [absorb, hop]
  cases k <;> rfl

theorem Live.departs {d : Bytes} (h : Live c o (d ++ t))
    (hd : Departs o d) : Fails c (c.step .read).1 (c.step .read).2 := by
  have hheader : ∀ b0 b1 : UInt8, d = [b0, b1] → b0 &&& 0x70 ≠ 0 ∨
      Opcode.fromU8 (b0 &&& 0x0f) = none ∨ b1 &&& 0x80 ≠ 0 →
      Fails c (c.step .read).1 (c.step .read).2 := by
    rintro b0 b1 rfl hbad
    obtain ⟨e, he⟩ := exists_readBody_eq_fail hbad
    refine h.fails_of_parse (e := e) ?_
    rw [cons_append, cons_append, parse_readFrame, he]
    rfl
  cases hd with
  | rsv hrsv => exact hheader _ _ rfl (.inl hrsv)
  | opcode hop => exact hheader _ _ rfl (.inr (.inl hop))
  | masked hmask => exact hheader _ _ rfl (.inr (.inr hmask))
  | @control fin op form len hform hop hbad =>
    by_cases hlong : form = .long ∧ maxWsBufferBytes < len
    · exact h.fails_of_parse (by rw [parse_header hform, if_pos hlong])
    · obtain ⟨e, he⟩ := exists_readPayload_eq_fail hop hbad
      refine h.fails_of_parse (e := e) ?_
      rw [parse_header hform, if_neg hlong, he]
      rfl
  | tooLong hform hlen =>
    exact h.fails_of_parse (by rw [parse_header hform, if_pos ⟨rfl, hlen⟩])
  | orphan w hop ho =>
    refine h.fails_of_absorb (parse_encode w t) ?_ (fun hc => by rw [hop] at hc; cases hc)
    rw [absorb, hop, ho]
    rfl
  | midFragment w k hop ho =>
    refine h.fails_of_absorb (parse_encode w t) ?_ (fun hc => by rw [hop] at hc; cases k <;> cases hc)
    rw [absorb_data hop, begin, if_pos (.inl (isSome_iff_ne_none.2 ho))]
  | overCap w hop ho hlen =>
    refine h.fails_of_absorb (parse_encode w t) ?_ (fun hc => by rw [hop] at hc; cases hc)
    rw [absorb, hop, ho]
    exact if_pos hlen
  | badText w hop hfin ho hbad =>
    refine h.fails_of_decode (x := ⟨none, some (.text, w.payload)⟩) (parse_encode w t)
      ?_ rfl (by rw [Kind.decode, hbad]; rfl)
    rw [absorb_data (k := .text) hop, begin, ho, if_neg, if_pos hfin]
    rintro (hs | hs)
    · cases hs
    · exact absurd w.within (not_le.2 hs)
  | @badLast w b hop hfin ho hbad =>
    by_cases hlen : maxWsBufferBytes < b.length + w.payload.length
    · refine h.fails_of_absorb (parse_encode w t) ?_ (fun hc => by rw [hop] at hc; cases hc)
      rw [absorb, hop, ho]
      exact if_pos hlen
    · refine h.fails_of_decode (x := ⟨none, some (.text, b ++ w.payload)⟩)
        (parse_encode w t) ?_ rfl (by rw [Kind.decode, hbad]; rfl)
      rw [absorb, hop, ho]
      rw [extend, if_neg hlen, if_pos hfin]
  | badClose w hop hbad =>
    exact h.fails_of_absorb (parse_encode w t) (by rw [absorb, hop]) fun _ => hbad

theorem live_installed (conn : Source UInt8) (onClose onError : Bool) :
    Live ((opened conn).step (.setHandlers (some ⟨true, onClose, onError⟩))).1 none
      conn.bytes where
  reader := ⟨conn, rfl, rfl⟩
  bounded := bounded_none
  message := rfl
  notClosed := false_ne_true
  peerClose := rfl
  queue := nofun
  writer := .inl rfl

/-- However messages are cut into fragments, with Pings and Pongs between them, however the bytes
    arrive, and whatever the caller and the writer task do meanwhile, short of ending the
    connection: once the reader had its turn for each frame, the handler was called with the
    messages in order, and a Pong was queued for each Ping up to a `close`. If the stream then
    departs from the protocol, the connection ends with 1006, and nothing more is delivered. -/
theorem reading_correct {sendings : List Sending} {begun : Option Begun}
    (stream : Stream sendings begun) {conn : Source UInt8} {t : Bytes}
    (hconn : conn.bytes = stream.bytes ++ t) (onClose onError : Bool) {acts : List Action}
    (hbenign : ∀ a ∈ acts, a.Benign)
    (hreads : acts.countP Action.isRead = stream.frames.length) :
    let out := (opened conn).run (.setHandlers (some ⟨true, onClose, onError⟩) :: acts)
    delivered out.2 = sendings.map Sending.message ∧
      pongs out.2 = answered false acts (stream.frames.map (·.toFrame)) ∧
      ¬out.1.shared.closed ∧
      ∀ d t', t = d ++ t' → Departs (pendingOf begun) d → ∀ acts',
        Fails out.1 (out.1.step .read).1 (out.1.step .read).2 ∧
          (out.1.run (.read :: acts')).1.shared.closed ∧
          (out.1.run (.read :: acts')).1.shared.closeCode = 1006 ∧
          delivered (out.1.run (.read :: acts')).2 = [] := by
  intro out
  have hstart := live_installed conn onClose onError
  rw [hconn] at hstart
  have hdecode : ∀ m ∈ sendings.map (fun x => (x.message.kind, x.message.payload)),
      (m.1.decode m.2).isSome := by
    intro m hm
    obtain ⟨x, -, rfl⟩ := mem_map.1 hm
    rw [decode_payload]
    rfl
  have hrun := hstart.run stream.assembled hdecode hbenign hreads
  refine ⟨?_, ?_, hrun.live.notClosed, ?_⟩
  · rw [show out.2 = [] ++ _ from rfl, nil_append, hrun.delivered]
    simp [decode_payload]
  · rw [show out.2 = [] ++ _ from rfl, nil_append, hrun.pongs]
    rfl
  · rintro d t' rfl hd acts'
    have hfails := hrun.live.departs hd
    exact ⟨hfails, hfails.run acts'⟩

/-- A greeting in two fragments, with a Ping between them and a length in the longer form. -/
def greeting : Stream [⟨.text "hi", [0x68], [[0x69]], rfl, by decide⟩] none where
  frames :=
    [⟨⟨false, .text, [0x68]⟩, .short, by decide, by decide, nofun⟩,
      ⟨⟨true, .ping, [0x70]⟩, .short, by decide, by decide, fun _ => by decide⟩,
      ⟨⟨true, .continuation, [0x69]⟩, .medium, by decide, by decide, nofun⟩]
  data := rfl
  noClose := by simp

/-- The greeting arrives in three reads, with two bytes after it that no server may send. The
    client closes in between. -/
theorem reading_correct_greeting :
    delivered ((opened ⟨[[0x01, 0x01, 0x68, 0x89], [0x01, 0x70, 0x80, 126, 0],
        [0x01, 0x69, 0xff, 0xff]], .quiet⟩).run
      [.setHandlers (some ⟨true, true, true⟩), .read, .read, .close none none, .read]).2 =
        ["hi".toList].map Message.text ∧
      pongs ((opened ⟨[[0x01, 0x01, 0x68, 0x89], [0x01, 0x70, 0x80, 126, 0],
        [0x01, 0x69, 0xff, 0xff]], .quiet⟩).run
      [.setHandlers (some ⟨true, true, true⟩), .read, .read, .close none none, .read]).2 =
        [[0x70]] := by
  obtain ⟨hdelivered, hpongs, -⟩ := @reading_correct _ _ greeting
    ⟨[[0x01, 0x01, 0x68, 0x89], [0x01, 0x70, 0x80, 126, 0], [0x01, 0x69, 0xff, 0xff]], .quiet⟩
    [0xff, 0xff] rfl true true [.read, .read, .close none none, .read]
    (by
      intro a ha
      fin_cases ha
      · trivial
      · trivial
      · exact ⟨rfl, Nat.zero_le _⟩
      · trivial)
    rfl
  exact ⟨hdelivered, hpongs⟩

/-- A Ping that is read after `close` was called, while the Close waits behind a message in the
    queue: no Pong is queued, although no Close was sent or received. -/
theorem ping_behind_close :
    let out := (opened ⟨[[0x89, 0x01, 0x70]], .quiet⟩).run [.setHandlers (some ⟨true, true, true⟩),
      .send (some (.text "a")), .close none none, .read]
    out.2 = [.queued (.data (.text "a")), .queued (.close [0x03, 0xe8])] ∧
      out.1.shared.queue = [.data (.text "a"), .close [0x03, 0xe8]] ∧
      out.1.reader.conn.bytes = [] ∧ ¬out.1.shared.closed := by
  have hparse : readFrame.parse [0x89, 0x01, 0x70] = .ok ⟨true, .ping, [0x70]⟩ [] := rfl
  obtain ⟨conn, hrun, hbytes, -⟩ :=
    Decoder.exists_run_of_parse (c := ⟨[[0x89, 0x01, 0x70]], .quiet⟩) hparse
  have hread (s : Shared) (hopen : ¬s.closed) (hclosing : s.closedLocal) :
      Reader.step ⟨⟨[[0x89, 0x01, 0x70]], .quiet⟩, none, [], true⟩ s =
        (⟨conn, none, [], true⟩, s, []) := by
    rw [Reader.step_of_running rfl hopen, hrun]
    simp [Reader.onFrame, hclosing]
  intro out
  have hout : out = _ := congrArg (fun r : Reader × Shared × List Event =>
      ((⟨r.2.1, r.1, .idle⟩ : Client), [Event.queued (.data (.text "a")),
        .queued (.close [0x03, 0xe8])] ++ (r.2.2 ++ []))) (hread
    ⟨⟨true, true, true⟩, [.data (.text "a"), .close [0x03, 0xe8]], true, none, 1, false, 1006, []⟩
    Bool.false_ne_true rfl)
  rw [hout]
  exact ⟨rfl, rfl, hbytes, Bool.false_ne_true⟩

end ZeroProxy.Ws
