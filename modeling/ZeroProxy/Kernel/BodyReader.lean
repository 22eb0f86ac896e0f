import ZeroProxy.Codec.ChunkedFeed

/-!
# Reading a response body

`BodyReader` (`zp-kernel-bundle/src/kernel/transport/http1.rs`): the body of a response, pulled
chunk by chunk from the connection it arrives on. The framing tells where it ends, and a
connection that is still usable then goes to `completed`, for the next request.
-/

namespace ZeroProxy.Kernel

open Bytes Codec Http List Reading Source ChunkedDecoder

/-- Where a response body ends. -/
inductive Framing
  | fixed (n : Nat)
  | chunked (decoder : ChunkedDecoder)
  | eof

/-- Why a body cannot be read. -/
inductive BodyError
  /-- `bytes beyond Content-Length`. -/
  | beyondLength
  /-- `bytes beyond chunked terminator`. -/
  | beyondTerminator
  /-- `truncated response`. -/
  | truncated
  /-- The decoder of chunked coding refuses it. -/
  | chunk (e : ChunkError)
  /-- The connection fails. -/
  | io

/-- `BodyReader`; `completed` has every connection that was placed there, in order. -/
structure BodyReader where
  conn : Option (Source UInt8)
  framing : Framing
  input : Bytes
  completed : List (Source UInt8)
  keepalive : Bool

/-- How a call of `next_chunk` ends. -/
inductive Outcome
  | chunk (b : Bytes)
  /-- `None`: the body is complete. -/
  | ended
  | failed (e : BodyError)
  /-- The connection has nothing to read yet. -/
  | waiting
  /-- There is no connection to read from. -/
  | panicked

namespace BodyReader

/-- The size of the buffer that `next_chunk` reads into. -/
def scratch : Nat := 8191 + 1

def finish (r : BodyReader) : BodyReader :=
  { r with conn := none, completed := if r.keepalive then r.completed ++ r.conn.toList else r.completed }

/-- What a turn of the loop comes to. -/
inductive Turn
  | returns (out : Outcome) (r : BodyReader)
  | reads (r : BodyReader)

/-- One turn of the loop in `next_chunk`, up to its read. -/
def turn (r : BodyReader) : Turn :=
  match r.framing with
  | .fixed remaining =>
    if remaining < r.input.length then .returns (.failed .beyondLength) r
    else if r.input ≠ [] then
      .returns (.chunk r.input) { r with framing := .fixed (remaining - r.input.length), input := [] }
    else if remaining = 0 then .returns .ended r.finish
    else .reads r
  | .chunked decoder =>
    match (decoder.push r.input).stepUntilBlocked with
    | (d, .error e) => .returns (.failed (.chunk e)) { r with framing := .chunked d, input := [] }
    | (d, .ok _) =>
      if d.isDone && d.hasRemainingInput then
        .returns (.failed .beyondTerminator) { r with framing := .chunked d, input := [] }
      else if d.takeBody.1 ≠ [] then
        .returns (.chunk d.takeBody.1) { r with framing := .chunked d.takeBody.2, input := [] }
      else if d.takeBody.2.isDone then
        .returns .ended { r with framing := .chunked d.takeBody.2, input := [] }.finish
      else .reads { r with framing := .chunked d.takeBody.2, input := [] }
  | .eof =>
    if r.input ≠ [] then .returns (.chunk r.input) { r with input := [] } else .reads r

def readLimit (r : BodyReader) : Nat :=
  match r.framing with
  | .fixed n => min n scratch
  | _ => scratch

/-- The end of the connection. -/
def atEof (r : BodyReader) : Outcome × BodyReader :=
  match r.framing with
  | .eof => (.ended, r.finish)
  | _ => (.failed .truncated, r)

theorem turn_reads {r r' : BodyReader} (h : r.turn = .reads r') :
    r'.conn = r.conn ∧ 0 < r'.readLimit := by
  rw [turn] at h
  split at h
  · next n hn =>
    split_ifs at h
    cases h
    refine ⟨rfl, ?_⟩
    rw [readLimit, hn]
    exact Nat.lt_min.2 ⟨by omega, by decide⟩
  · split at h
    · cases h
    · split_ifs at h
      cases h
      exact ⟨rfl, Nat.succ_pos _⟩
  next hn =>
  split_ifs at h
  cases h
  refine ⟨rfl, ?_⟩
  rw [readLimit, hn]
  decide

def nextChunk (r : BodyReader) : Outcome × BodyReader :=
  match _h : r.turn with
  | .returns out r' => (out, r')
  | .reads r' =>
    match _hc : r'.conn with
    | none => (.panicked, r')
    | some c =>
      match _hr : c.read r'.readLimit with
      | .data s c' => nextChunk { r' with conn := some c', input := r'.input ++ s }
      | .eof => r'.atEof
      | .error => (.failed .io, r')
      | .pending => (.waiting, r')
termination_by (r.conn.map fun c => c.bytes.length).getD 0
decreasing_by
  obtain ⟨hconn, hlimit⟩ := turn_reads _h
  rw [← hconn, _hc]
  exact length_of_read hlimit _hr

section Turn

variable (conn : Option (Source UInt8)) (i : Bytes) (done : List (Source UInt8)) (keep : Bool)

theorem turn_fixed (n : Nat) : turn ⟨conn, .fixed n, i, done, keep⟩ =
    if n < i.length then .returns (.failed .beyondLength) ⟨conn, .fixed n, i, done, keep⟩
    else if i ≠ [] then .returns (.chunk i) ⟨conn, .fixed (n - i.length), [], done, keep⟩
    else if n = 0 then .returns .ended (finish ⟨conn, .fixed n, i, done, keep⟩)
    else .reads ⟨conn, .fixed n, i, done, keep⟩ := rfl

variable {d d' : ChunkedDecoder}

theorem turn_of_chunkError {e : ChunkError}
    (h : (d.push i).stepUntilBlocked = (d', .error e)) : turn ⟨conn, .chunked d, i, done, keep⟩ =
      .returns (.failed (.chunk e)) ⟨conn, .chunked d', [], done, keep⟩ := by
  rw [turn]
  dsimp only
  rw [h]

theorem turn_chunked {said : ChunkedStep}
    (h : (d.push i).stepUntilBlocked = (d', .ok said)) : turn ⟨conn, .chunked d, i, done, keep⟩ =
      if d'.isDone && d'.hasRemainingInput then
        .returns (.failed .beyondTerminator) ⟨conn, .chunked d', [], done, keep⟩
      else if d'.body ≠ [] then
        .returns (.chunk d'.body) ⟨conn, .chunked d'.takeBody.2, [], done, keep⟩
      else if d'.isDone then .returns .ended (finish ⟨conn, .chunked d'.takeBody.2, [], done, keep⟩)
      else .reads ⟨conn, .chunked d'.takeBody.2, [], done, keep⟩ := by
  rw [turn]
  dsimp only
  rw [h]
  rfl

theorem turn_eof : turn ⟨conn, .eof, i, done, keep⟩ =
    if i ≠ [] then .returns (.chunk i) ⟨conn, .eof, [], done, keep⟩
    else .reads ⟨conn, .eof, i, done, keep⟩ := rfl

end Turn

variable {r r' : BodyReader} {c : Source UInt8}

theorem nextChunk_of_returns {out : Outcome} (h : r.turn = .returns out r') :
    r.nextChunk = (out, r') := by
  rw [nextChunk]
  split
  · next h' => rw [h] at h'; cases h'; rfl
  · next h' => rw [h] at h'; cases h'

theorem nextChunk_of_reads (h : r.turn = .reads r') (hc : r'.conn = some c) :
    r.nextChunk = match c.read r'.readLimit with
      | .data s c' => nextChunk { r' with conn := some c', input := r'.input ++ s }
      | .eof => r'.atEof
      | .error => (.failed .io, r')
      | .pending => (.waiting, r') := by
  rw [nextChunk]
  split
  · next h' => rw [h] at h'; cases h'
  next r₁ h' =>
  rw [h] at h'
  cases h'
  split
  · next h' => rw [hc] at h'; cases h'
  · next c₁ h' =>
    rw [hc] at h'
    cases h'
    split <;> simp [*]

end BodyReader

open BodyReader

/-! ## Consumers -/

/-- The calls of a consumer: the chunks it got, and how the last call ended, unless it stopped
    asking. -/
structure Trace where
  chunks : List Bytes
  outcome : Option Outcome
  reader : BodyReader

/-- At most `k` calls of `next_chunk`, as long as chunks come. -/
def pulls : Nat → BodyReader → Trace
  | 0, r => ⟨[], none, r⟩
  | k + 1, r =>
    match r.nextChunk with
    | (.chunk b, r') =>
      let t := pulls k r'
      { t with chunks := b :: t.chunks }
    | (out, r') => ⟨[], some out, r'⟩

/-- What a call is to do, when `inv m b r` says that a reader has returned the data `b` and is
    to return at most `m` chunks more: a chunk keeps it, and all else is final. -/
def CallSpec (inv : Nat → Bytes → BodyReader → Prop) (final : Outcome → Bytes → BodyReader → Prop) :
    Prop :=
  ∀ m b r, inv m b r →
    (∃ s r', r.nextChunk = (.chunk s, r') ∧ ∃ m' < m, inv m' (b ++ s) r') ∨
      ∃ out r', r.nextChunk = (out, r') ∧ (∀ s, out ≠ .chunk s) ∧ final out b r'

theorem pulls_spec {inv : Nat → Bytes → BodyReader → Prop}
    {final : Outcome → Bytes → BodyReader → Prop} (hspec : CallSpec inv final) {m : Nat} {b : Bytes}
    {r : BodyReader} (h : inv m b r) (k : Nat) :
    (∃ m', (pulls k r).outcome = none ∧ k + m' ≤ m ∧
        inv m' (b ++ (pulls k r).chunks.flatten) (pulls k r).reader) ∨
      ∃ out, (pulls k r).outcome = some out ∧
        final out (b ++ (pulls k r).chunks.flatten) (pulls k r).reader := by
  induction k generalizing m b r with
  | zero => exact .inl ⟨m, rfl, by omega, by rwa [pulls, flatten_nil, append_nil]⟩
  | succ k ih =>
    rcases hspec m b r h with ⟨s, r', hnext, m', hm', hinv⟩ | ⟨out, r', hnext, hne, hfinal⟩
    · have hpulls : pulls (k + 1) r = { pulls k r' with chunks := s :: (pulls k r').chunks } := by
        rw [pulls, hnext]
      rw [hpulls]
      rw [flatten_cons, ← append_assoc]
      rcases ih hinv with ⟨m'', hout, hle, hinv'⟩ | hfinal
      · exact .inl ⟨m'', hout, by omega, hinv'⟩
      · exact .inr hfinal
    have hpulls : pulls (k + 1) r = ⟨[], some out, r'⟩ := by
      rw [pulls, hnext]
      cases out with
      | chunk s => exact absurd rfl (hne s)
      | _ => rfl
    rw [hpulls]
    exact .inr ⟨out, rfl, by rwa [flatten_nil, append_nil]⟩

/-! ## What a stream holds -/

/-- The framings that a response may have. -/
inductive Framed
  | fixed (n : Nat)
  | chunked
  | eof

/-- `usize::MAX`, the cap on a chunked body, where a `usize` has 32 bits. -/
def usizeMax : Nat := 4294967295

namespace Framed

def start : Framed → Framing
  | .fixed n => .fixed n
  | .chunked => .chunked (.new usizeMax)
  | .eof => .eof

def body (f : Framed) (s : Bytes) : Bytes :=
  match f with
  | .fixed n => s.take n
  | .chunked => (read .unlimited 0 s).body
  | .eof => s

/-- The body is all there. -/
def Complete (f : Framed) (s : Bytes) (tail : Tail) : Prop :=
  match f with
  | .fixed n => n ≤ s.length
  | .chunked => ∃ rest, (read .unlimited 0 s).status = .complete rest
  | .eof => tail = .closed

/-- The stream comes to an end, and the body is not all there. -/
def EndsEarly (f : Framed) (s : Bytes) (tail : Tail) : Prop :=
  match f with
  | .fixed n => s.length < n ∧ tail ≠ .quiet
  | .chunked => tail ≠ .quiet ∧ ∃ part, (read .unlimited 0 s).status = .line part ∨
      (read .unlimited 0 s).status = .data part
  | .eof => tail = .broken

/-- There is more than the body. -/
def GoesBeyond (f : Framed) (s : Bytes) : Prop :=
  match f with
  | .fixed n => n < s.length
  | .chunked => ∃ rest ≠ [], (read .unlimited 0 s).status = .complete rest
  | .eof => False

theorem not_complete_of_endsEarly {f : Framed} {s : Bytes} {tail : Tail}
    (h : f.EndsEarly s tail) : ¬ f.Complete s tail := by
  cases f with
  | fixed n =>
    intro hn
    exact not_le.2 h.1 hn
  | chunked =>
    rintro ⟨rest, hrest⟩
    obtain ⟨-, part, hpart | hpart⟩ := h
    · rw [hrest] at hpart
      cases hpart
    · rw [hrest] at hpart
      cases hpart
  | eof =>
    intro hc
    rw [hc] at h
    cases h

end Framed

/-- A response body that is about to be read: its framing, what was read with the head, the
    connection, and whether that may be used again. -/
structure Incoming where
  framed : Framed
  leftover : Bytes
  conn : Source UInt8
  keepalive : Bool

namespace Incoming

variable (x : Incoming)

def stream : Bytes := x.leftover ++ x.conn.bytes

/-- The reader that `send_request` makes. -/
def reader : BodyReader := ⟨some x.conn, x.framed.start, x.leftover, [], x.keepalive⟩

/-- What the reads give: the bytes read with the head, and then buffer by buffer. -/
def pieces : List Bytes := x.leftover :: x.conn.reads 8191

/-- The reader stops reading where the body ends, with more to come. For a chunked body this is
    so when a read ends there, unless one before it ends within the line break of a line of the
    longest length. -/
def Overlooked : Prop :=
  match x.framed with
  | .fixed n => x.leftover.length ≤ n ∧ n < x.stream.length
  | .chunked => ∃ a b, x.pieces = a ++ b ∧ b.flatten ≠ [] ∧
      (read (decoderLimits usizeMax) 0 a.flatten).status = .complete [] ∧
      ∀ a', a' <+: a → ¬ refused usizeMax a'.flatten
  | .eof => False

/-- What a consumer may expect of `k` calls. -/
structure SoundFor (k : Nat) (t : Trace) : Prop where
  body : t.chunks.flatten <+: x.framed.body x.stream
  ended : t.outcome = some .ended →
    x.framed.Complete x.stream x.conn.tail ∧ t.chunks.flatten = x.framed.body x.stream
  reported : x.framed.EndsEarly x.stream x.conn.tail ∨ x.framed.GoesBeyond x.stream →
    t.outcome ≠ some .ended ∧ (x.stream.length < k → ∃ e, t.outcome = some (.failed e))
  placed : ∀ c ∈ t.reader.completed,
    t.outcome = some .ended ∧ x.keepalive ∧ t.reader.input = [] ∧ c.bytes = []
  once : t.reader.completed.length ≤ 1

def Sound : Prop := ∀ k, x.SoundFor k (pulls k x.reader)

/-- How the calls of a consumer end when `b` is what it got. -/
def Final (out : Outcome) (b : Bytes) (r : BodyReader) : Prop :=
  match out with
  | .ended => x.framed.Complete x.stream x.conn.tail ∧ b = x.framed.body x.stream ∧
      (x.framed.GoesBeyond x.stream → x.Overlooked) ∧ r.input = [] ∧
      ∃ c, r.completed = (if x.keepalive then [c] else []) ∧ (c.bytes = [] ∨ x.Overlooked)
  | .failed _ => r.completed = [] ∧ b <+: x.framed.body x.stream ∧ ¬ x.Overlooked
  | .waiting => r.completed = [] ∧ b <+: x.framed.body x.stream ∧ ¬ x.Overlooked ∧
      ¬ x.framed.EndsEarly x.stream x.conn.tail ∧ ¬ x.framed.GoesBeyond x.stream
  | _ => False

/-- An invariant of the calls that leads to a final state. -/
structure Leads (inv : Nat → Bytes → BodyReader → Prop) : Prop where
  call : CallSpec inv x.Final
  start : ∃ m ≤ x.stream.length, inv m [] x.reader
  keeps : ∀ m b r, inv m b r → r.completed = [] ∧ b <+: x.framed.body x.stream
  beyond : x.Overlooked → x.framed.GoesBeyond x.stream

variable {x}

theorem SoundFor.of_not_ended {k : Nat} {t : Trace}
    (hbody : t.chunks.flatten <+: x.framed.body x.stream) (hcompleted : t.reader.completed = [])
    (hne : t.outcome ≠ some .ended)
    (hreported : x.framed.EndsEarly x.stream x.conn.tail ∨ x.framed.GoesBeyond x.stream →
      x.stream.length < k → ∃ e, t.outcome = some (.failed e)) : x.SoundFor k t := by
  refine ⟨hbody, fun h => absurd h hne, fun hbad => ⟨hne, hreported hbad⟩, ?_, ?_⟩
  · rw [hcompleted]
    exact nofun
  · rw [hcompleted]
    exact Nat.zero_le 1

variable {inv : Nat → Bytes → BodyReader → Prop}

theorem Leads.soundFor (h : x.Leads inv)
    (hspared : ¬ x.Overlooked) (k : Nat) : x.SoundFor k (pulls k x.reader) := by
  obtain ⟨m, hm, hstart⟩ := h.start
  rcases pulls_spec h.call hstart k with ⟨m', hout, hk, hinv⟩ | ⟨out, hout, hfinal⟩
  · -- The consumer stopped asking.
    obtain ⟨hcompleted, hbody⟩ := h.keeps _ _ _ hinv
    refine .of_not_ended hbody hcompleted (fun h => ?_) (fun _ hlt => by omega)
    rw [hout] at h
    cases h
  cases out with
  | chunk s | panicked => cases hfinal
  | ended =>
    obtain ⟨hcomplete, hbody, hbeyond, hinput, c, hcompleted, hc⟩ := hfinal
    refine ⟨hbody ▸ prefix_rfl, fun _ => ⟨hcomplete, hbody⟩, fun hbad => ?_, fun c' hc' => ?_, ?_⟩
    · rcases hbad with hearly | hgoes
      · exact absurd hcomplete (Framed.not_complete_of_endsEarly hearly)
      · exact absurd (hbeyond hgoes) hspared
    · rw [hcompleted] at hc'
      split_ifs at hc' with hkeep
      · rw [mem_singleton.1 hc']
        exact ⟨hout, hkeep, hinput, hc.resolve_right hspared⟩
      · cases hc'
    · rw [hcompleted]
      split_ifs
      · exact le_refl 1
      · exact Nat.zero_le 1
  | failed e =>
    obtain ⟨hcompleted, hbody, -⟩ := hfinal
    refine .of_not_ended hbody hcompleted (fun h => ?_) fun _ _ => ⟨e, hout⟩
    rw [hout] at h
    cases h
  | waiting =>
    obtain ⟨hcompleted, hbody, -, hearly, hgoes⟩ := hfinal
    refine .of_not_ended hbody hcompleted (fun h => ?_)
      fun hbad => absurd hbad (not_or.2 ⟨hearly, hgoes⟩)
    rw [hout] at h
    cases h

theorem Leads.sound_iff_final (h : x.Leads inv) : x.Sound ↔ ¬ x.Overlooked := by
  refine ⟨fun hsound hover => ?_, fun hspared k => h.soundFor hspared k⟩
  obtain ⟨m, hm, hstart⟩ := h.start
  have hreported := (hsound (x.stream.length + 1)).reported (.inr (h.beyond hover))
  rcases pulls_spec h.call hstart (x.stream.length + 1) with ⟨m', -, hk, -⟩ | ⟨out, hout, hfinal⟩
  · omega
  · cases out with
    | chunk s | panicked => cases hfinal
    | ended => exact hreported.1 hout
    | failed e => exact hfinal.2.2 hover
    | waiting => exact hfinal.2.2.1 hover

/-! ## A length -/

variable (x) in
/-- A reader of a body of `n` bytes that has returned `b`. -/
def FixedInv (n m : Nat) (b : Bytes) (r : BodyReader) : Prop :=
  ∃ i c, r = ⟨some c, .fixed (n - b.length), i, [], x.keepalive⟩ ∧
    b ++ (i ++ c.bytes) = x.stream ∧ b.length ≤ n ∧ c.tail = x.conn.tail ∧
    m = (i ++ c.bytes).length ∧ (i = x.leftover ∧ b = [] ∨ i = [] ∧ x.leftover.length ≤ n)

theorem take_of_append {b t : Bytes} {n : Nat} (h : b ++ t = x.stream) (hb : b.length ≤ n) :
    b <+: x.stream.take n := by
  rw [← h, take_append, take_of_length_le hb]
  exact prefix_append _ _

theorem call_fixed {n : Nat} (hx : x.framed = .fixed n) : CallSpec (x.FixedInv n) x.Final := by
  rintro m b r ⟨i, c, rfl, hstream, hb, htail, rfl, hi⟩
  have hbody : b <+: x.framed.body x.stream := by
    rw [hx]
    exact take_of_append hstream hb
  have hturn := turn_fixed (some c) i [] x.keepalive (n - b.length)
  by_cases hlong : n - b.length < i.length
  · -- More was read with the head than the body has.
    rw [if_pos hlong] at hturn
    refine .inr ⟨_, _, nextChunk_of_returns hturn, nofun, rfl, hbody, ?_⟩
    rw [Overlooked, hx]
    rintro ⟨hle, -⟩
    rcases hi with ⟨rfl, rfl⟩ | ⟨rfl, -⟩
    · rw [length_nil] at hlong
      omega
    · exact Nat.not_lt_zero _ hlong
  rw [if_neg hlong] at hturn
  by_cases hne : i ≠ []
  · rw [if_pos hne] at hturn
    refine .inl ⟨i, _, nextChunk_of_returns hturn, c.bytes.length, ?_, [], c, ?_, ?_, ?_,
      htail, rfl, .inr ⟨rfl, ?_⟩⟩
    · have := length_pos_of_ne_nil hne
      rw [length_append]
      omega
    · rw [length_append, Nat.sub_sub]
    · rw [← hstream, nil_append, append_assoc]
    · rw [length_append]
      omega
    · rcases hi with ⟨rfl, rfl⟩ | ⟨rfl, -⟩
      · omega
      · exact absurd rfl hne
  obtain rfl : i = [] := not_not.1 hne
  rw [nil_append] at hstream
  have hleft : x.leftover.length ≤ n := by
    rcases hi with ⟨hi, -⟩ | ⟨-, hi⟩
    · rw [← hi]
      exact Nat.zero_le n
    · exact hi
  have hlen : x.stream.length = b.length + c.bytes.length := by
    rw [← hstream, length_append]
  by_cases hzero : n - b.length = 0
  · -- The body is complete, whatever else the connection has.
    rw [if_pos hzero] at hturn
    have hover : c.bytes ≠ [] → x.Overlooked := fun hc => by
      have := length_pos_of_ne_nil hc
      rw [Overlooked, hx]
      exact ⟨hleft, by omega⟩
    refine .inr ⟨_, _, nextChunk_of_returns hturn, nofun, ?_, ?_, fun hgoes => ?_, rfl, c, rfl, ?_⟩
    · rw [hx]
      exact (by omega : n ≤ x.stream.length)
    · rw [hx, Framed.body, ← hstream, take_append, take_of_length_le hb, hzero,
        take_zero, append_nil]
    · rw [hx] at hgoes
      refine hover fun hc => ?_
      rw [hc] at hlen
      exact absurd hgoes (by rw [Framed.GoesBeyond]; omega)
    · by_cases hc : c.bytes = []
      · exact .inl hc
      · exact .inr (hover hc)
  rw [if_neg hzero] at hturn
  have hcall := nextChunk_of_reads hturn rfl
  rcases c.read_spec (turn_reads hturn).2 with
    ⟨s, c', hread, hs, hslen, hbytes, htail'⟩ | ⟨hread, hnil⟩
  · -- What is read is returned.
    have hle : s.length ≤ n - b.length := le_trans hslen (Nat.min_le_left _ _)
    have hturn' := turn_fixed (some c') ([] ++ s) [] x.keepalive (n - b.length)
    rw [nil_append, if_neg (not_lt.2 hle), if_pos hs] at hturn'
    rw [hread] at hcall
    dsimp only [nil_append] at hcall
    rw [nextChunk_of_returns hturn'] at hcall
    refine .inl ⟨s, _, hcall, c'.bytes.length, ?_, [], c', ?_, ?_, ?_, htail'.trans htail, rfl,
      .inr ⟨rfl, hleft⟩⟩
    · exact length_of_read (turn_reads hturn).2 hread
    · rw [length_append, Nat.sub_sub]
    · rw [← hstream, hbytes, nil_append, append_assoc]
    · rw [length_append]
      omega
  · -- Nothing more comes, and the body is not complete.
    rw [hread] at hcall
    rw [hnil, length_nil] at hlen
    have hspared : ¬ x.Overlooked := by
      rw [Overlooked, hx]
      omega
    cases ht : c.tail with
    | quiet =>
      rw [ht] at hcall
      refine .inr ⟨_, _, hcall, nofun, rfl, hbody, hspared, ?_, ?_⟩
      · rw [hx]
        rintro ⟨-, hquiet⟩
        exact hquiet (htail.symm.trans ht)
      · rw [hx]
        exact (by omega : ¬ n < x.stream.length)
    | closed | broken =>
      rw [ht] at hcall
      exact .inr ⟨_, _, hcall, nofun, rfl, hbody, hspared⟩

theorem leads_fixed {n : Nat} (hx : x.framed = .fixed n) : x.Leads (x.FixedInv n) where
  call := call_fixed hx
  start := ⟨_, Nat.le_refl _, x.leftover, x.conn, by rw [reader, hx]; rfl, rfl, Nat.zero_le n, rfl,
    rfl, .inl ⟨rfl, rfl⟩⟩
  keeps := by
    rintro m b r ⟨i, c, rfl, hstream, hb, -⟩
    refine ⟨rfl, ?_⟩
    rw [hx]
    exact take_of_append hstream hb
  beyond := by
    rw [Overlooked, hx]
    exact And.right

/-! ## The end of the connection -/

variable (x) in
/-- A reader of all there is that has returned `b`. -/
def EofInv (m : Nat) (b : Bytes) (r : BodyReader) : Prop :=
  ∃ i c, r = ⟨some c, .eof, i, [], x.keepalive⟩ ∧ b ++ (i ++ c.bytes) = x.stream ∧
    c.tail = x.conn.tail ∧ m = (i ++ c.bytes).length

theorem call_eof (hx : x.framed = .eof) : CallSpec x.EofInv x.Final := by
  rintro m b r ⟨i, c, rfl, hstream, htail, rfl⟩
  have hspared : ¬ x.Overlooked := by
    rw [Overlooked, hx]
    exact id
  have hbody : b <+: x.framed.body x.stream := by
    rw [hx]
    exact ⟨_, hstream⟩
  have hturn := turn_eof (some c) i [] x.keepalive
  by_cases hne : i ≠ []
  · rw [if_pos hne] at hturn
    refine .inl ⟨i, _, nextChunk_of_returns hturn, c.bytes.length, ?_, [], c, rfl, ?_, htail, rfl⟩
    · have := length_pos_of_ne_nil hne
      rw [length_append]
      omega
    · rw [← hstream, nil_append, append_assoc]
  obtain rfl : i = [] := not_not.1 hne
  rw [nil_append] at hstream
  have hcall := nextChunk_of_reads hturn rfl
  rcases c.read_spec (turn_reads hturn).2 with
    ⟨s, c', hread, hs, -, hbytes, htail'⟩ | ⟨hread, hnil⟩
  · have hturn' := turn_eof (some c') ([] ++ s) [] x.keepalive
    rw [nil_append, if_pos hs] at hturn'
    rw [hread] at hcall
    dsimp only [nil_append] at hcall
    rw [nextChunk_of_returns hturn'] at hcall
    refine .inl ⟨s, _, hcall, c'.bytes.length, ?_, [], c', rfl, ?_, htail'.trans htail, rfl⟩
    · exact length_of_read (turn_reads hturn).2 hread
    · rw [← hstream, hbytes, nil_append, append_assoc]
  rw [hread] at hcall
  cases ht : c.tail with
  | quiet =>
    rw [ht] at hcall
    refine .inr ⟨_, _, hcall, nofun, rfl, hbody, hspared, ?_, ?_⟩
    · rw [hx, ← htail, ht]
      exact nofun
    · rw [hx]
      exact id
  | closed =>
    rw [ht] at hcall
    refine .inr ⟨_, _, hcall, nofun, ?_, ?_, ?_, rfl, c, rfl, .inl hnil⟩
    · rw [hx]
      exact htail.symm.trans ht
    · rw [hx, Framed.body, ← hstream, hnil, append_nil]
    · rw [hx]
      exact False.elim
  | broken =>
    rw [ht] at hcall
    exact .inr ⟨_, _, hcall, nofun, rfl, hbody, hspared⟩

theorem leads_eof (hx : x.framed = .eof) : x.Leads x.EofInv where
  call := call_eof hx
  start := ⟨_, Nat.le_refl _, x.leftover, x.conn, by rw [reader, hx]; rfl, rfl, rfl, rfl⟩
  keeps := by
    rintro m b r ⟨i, c, rfl, hstream, -⟩
    refine ⟨rfl, ?_⟩
    rw [hx]
    exact ⟨_, hstream⟩
  beyond := by
    rw [Overlooked, hx]
    exact False.elim

/-! ## Chunked coding -/

/-- The decoder does not ask for more. -/
def settled (cap : Nat) (u : Bytes) : Prop :=
  (read (decoderLimits cap) 0 u).ending.verdict ≠ .needsMore

instance (cap : Nat) (u : Bytes) : Decidable (settled cap u) :=
  inferInstanceAs (Decidable (_ ≠ _))

/-- The pieces up to where the decoder does not ask for more, and those after it. -/
def settle (cap : Nat) (u : Bytes) : List Bytes → Bytes × List Bytes
  | [] => (u, [])
  | p :: ps => if settled cap (u ++ p) then (u ++ p, ps) else settle cap (u ++ p) ps

section Settle

variable {cap : Nat} {u : Bytes}

theorem settle_append (u : Bytes) (ps : List Bytes) :
    (settle cap u ps).1 ++ (settle cap u ps).2.flatten = u ++ ps.flatten := by
  induction ps generalizing u with
  | nil => rfl
  | cons p ps ih =>
    rw [settle, flatten_cons, ← append_assoc]
    split_ifs
    · rfl
    · exact ih (u ++ p)

theorem settle_of_complete {a b : List Bytes}
    (hstatus : (read (decoderLimits cap) 0 (u ++ a.flatten)).status = .complete [])
    (hu : ¬ settled cap u) (hrefused : ∀ a', a' <+: a → ¬ refused cap (u ++ a'.flatten)) :
    ∃ ps, settle cap u (a ++ b) = ((settle cap u (a ++ b)).1, ps ++ b) ∧
      (read (decoderLimits cap) 0 (settle cap u (a ++ b)).1).status = .complete [] := by
  induction a generalizing u with
  | nil =>
    rw [flatten_nil, append_nil] at hstatus
    rw [settled, ending, hstatus] at hu
    exact absurd (fun h => by cases h) hu
  | cons p a ih =>
    rw [flatten_cons, ← append_assoc] at hstatus
    rw [cons_append, settle]
    split_ifs with hp
    · -- It is not refused here, so it is complete, and more bytes would be left over.
      refine ⟨a, rfl, ?_⟩
      have hok := hrefused [p] ⟨a, rfl⟩
      rw [flatten_singleton] at hok
      have hdone : (read (decoderLimits cap) 0 (u ++ p)).ending.verdict = .done := by
        cases hv : (read (decoderLimits cap) 0 (u ++ p)).ending.verdict with
        | needsMore => exact absurd hv hp
        | done => rfl
        | failed => exact absurd hv hok
      obtain ⟨rest, hrest, -⟩ := status_of_done hdone
      have h := congrArg status
        ((read_append (decoderLimits cap) 0 (u ++ p) a.flatten).complete rest hrest)
      rw [hstatus] at h
      rw [hrest, (append_eq_nil_iff.1 (Status.complete.inj h).symm).1]
    · refine ih hstatus hp fun a' ha' => ?_
      have h := hrefused (p :: a') (cons_prefix_cons.2 ⟨rfl, ha'⟩)
      rwa [flatten_cons, ← append_assoc] at h

theorem exists_settle (u : Bytes) (ps : List Bytes) (hu : ¬ settled cap u) :
    ∃ a b, ps = a ++ b ∧ settle cap u ps = (u ++ a.flatten, b) ∧
      ∀ a', a' <+: a → refused cap (u ++ a'.flatten) → a' = a := by
  have hnot {v : Bytes} (hv : ¬ settled cap v) : ¬ refused cap v := fun h =>
    hv fun hmore => by rw [refused, hmore] at h; cases h
  induction ps generalizing u with
  | nil => exact ⟨[], [], rfl, by rw [settle, flatten_nil, append_nil],
      fun a' ha' _ => prefix_nil.1 ha'⟩
  | cons p ps ih =>
    have hnil {a : List Bytes} (h : refused cap (u ++ [].flatten)) : [] = a := by
      rw [flatten_nil, append_nil] at h
      exact absurd h (hnot hu)
    rw [settle]
    split_ifs with hp
    · refine ⟨[p], ps, rfl, by rw [flatten_singleton], fun a' ha' h => ?_⟩
      rcases a' with _ | ⟨q, a'⟩
      · exact hnil h
      · rw [cons_prefix_cons, prefix_nil] at ha'
        rw [ha'.1, ha'.2]
    obtain ⟨a, b, rfl, hsettle, hfirst⟩ := ih (u ++ p) hp
    refine ⟨p :: a, b, rfl, by rw [hsettle, flatten_cons, append_assoc], fun a' ha' h => ?_⟩
    rcases a' with _ | ⟨q, a'⟩
    · exact hnil h
    · obtain ⟨rfl, hpre⟩ := cons_prefix_cons.1 ha'
      rw [flatten_cons, ← append_assoc] at h
      rw [hfirst a' hpre h]

theorem not_settled_nil (cap : Nat) : ¬ settled cap [] := by
  rw [settled, ← (took_start cap).ending]
  exact not_not.2 rfl

end Settle

theorem overlooked_chunked_iff (hx : x.framed = .chunked) :
    x.Overlooked ↔ (read (decoderLimits usizeMax) 0 (settle usizeMax [] x.pieces).1).status =
      .complete [] ∧ (settle usizeMax [] x.pieces).2.flatten ≠ [] := by
  rw [Overlooked, hx]
  constructor
  · rintro ⟨a, b, hpieces, hb, hstatus, hrefused⟩
    obtain ⟨ps, hsettle, hcomplete⟩ := @settle_of_complete usizeMax [] a b
      (by rwa [nil_append]) (not_settled_nil _)
      (fun a' ha' => by rw [nil_append]; exact hrefused a' ha')
    rw [hpieces]
    refine ⟨hcomplete, ?_⟩
    rw [hsettle, flatten_append]
    exact fun h => hb (append_eq_nil_iff.1 h).2
  rintro ⟨hstatus, hne⟩
  obtain ⟨a, b, hpieces, hsettle, hfirst⟩ :=
    exists_settle [] x.pieces (not_settled_nil usizeMax)
  rw [hsettle, nil_append] at hstatus hne
  refine ⟨a, b, hpieces, hne, hstatus, fun a' ha' h => ?_⟩
  obtain rfl := hfirst a' ha' (by rwa [nil_append])
  rw [refused, ending, hstatus] at h
  cases h

theorem body_prefix_body (hx : x.framed = .chunked) {u t : Bytes} (h : u ++ t = x.stream) :
    (read (decoderLimits usizeMax) 0 u).body <+: x.framed.body x.stream := by
  rw [hx, ← h]
  exact (read_append (decoderLimits usizeMax) 0 u t).body.trans (read_unlimited 0 (u ++ t)).body

theorem read_stream {u : Bytes} {tail : Status}
    (h : (read (decoderLimits usizeMax) 0 u).status = tail) (hne : tail ≠ .malformed) :
    read .unlimited 0 u = read (decoderLimits usizeMax) 0 u :=
  (read_unlimited 0 u).eq (h ▸ hne)

theorem ending_of_turn {u b i : Bytes} {d d' : ChunkedDecoder} {v : Verdict} {said : ChunkedStep}
    {res : Except ChunkError ChunkedStep} (h : Took usizeMax u (.ok said) ⟨b, d, v⟩)
    (hd : (d.push i).stepUntilBlocked = (d', res)) :
    Took usizeMax (u ++ i) res ⟨b ++ d'.body, d'.takeBody.2, .of res⟩ ∧
      (read (decoderLimits usizeMax) 0 (u ++ i)).ending =
        ⟨.of res, b ++ d'.body, if Verdict.of res = .failed then none else some d'.input⟩ := by
  have hok : v ≠ .failed := by
    rw [show v = _ from h.verdict]
    cases said <;> exact nofun
  have hfeed := h.feed hok ⟨i, true⟩
  rw [Run.feed, if_neg hok] at hfeed
  rw [hd] at hfeed
  refine ⟨hfeed, ?_⟩
  rw [← hfeed.ending, Run.ending]
  simp [takeBody]

variable (x) in
/-- A reader of a chunked body that has returned `b`: its decoder has taken `u`. -/
def ChunkedInv (m : Nat) (b : Bytes) (r : BodyReader) : Prop :=
  ∃ u i c d v said, r = ⟨some c, .chunked d, i, [], x.keepalive⟩ ∧
    Took usizeMax u (.ok said) ⟨b, d, v⟩ ∧ b = (read (decoderLimits usizeMax) 0 u).body ∧
    u ++ (i ++ c.bytes) = x.stream ∧
    settle usizeMax u (i :: c.reads 8191) = settle usizeMax [] x.pieces ∧
    c.tail = x.conn.tail ∧ m = (i ++ c.bytes).length

theorem final_ended_chunked (hx : x.framed = .chunked) {u b : Bytes} {r : BodyReader}
    {c : Source UInt8} (hstatus : (read (decoderLimits usizeMax) 0 u).status = .complete [])
    (hb : b = (read (decoderLimits usizeMax) 0 u).body)
    (hsettle : settle usizeMax [] x.pieces = (u, c.reads 8191)) (hstream : u ++ c.bytes = x.stream)
    (hinput : r.input = []) (hcompleted : r.completed = if x.keepalive then [c] else []) :
    x.Final .ended b r := by
  have hall := (read_append (decoderLimits usizeMax) 0 u c.bytes).complete [] hstatus
  rw [hstream, nil_append] at hall
  have hread := read_stream (congrArg status hall) nofun
  have hover : c.bytes ≠ [] → x.Overlooked := fun hc => by
    rw [overlooked_chunked_iff hx, hsettle]
    exact ⟨hstatus, by rwa [flatten_reads]⟩
  refine ⟨?_, ?_, fun hgoes => ?_, hinput, c, hcompleted, ?_⟩
  · rw [hx, Framed.Complete, hread, hall]
    exact ⟨_, rfl⟩
  · rw [hx, Framed.body, hread, hall, hb]
  · rw [hx, Framed.GoesBeyond, hread, hall] at hgoes
    obtain ⟨rest, hrest, hc⟩ := hgoes
    exact hover (Status.complete.inj hc ▸ hrest)
  · by_cases hc : c.bytes = []
    · exact .inl hc
    · exact .inr (hover hc)

theorem final_waiting_chunked (hx : x.framed = .chunked) {u b : Bytes} {r : BodyReader}
    (hmore : ¬ settled usizeMax u) (hstream : u = x.stream) (htail : x.conn.tail = .quiet)
    (hcompleted : r.completed = []) (hbody : b <+: x.framed.body x.stream)
    (hspared : ¬ x.Overlooked) : x.Final .waiting b r := by
  refine ⟨hcompleted, hbody, hspared, ?_, ?_⟩
  · rw [hx]
    exact fun h => h.1 htail
  rw [hx]
  rintro ⟨rest, -, hrest⟩
  -- A message that is complete without limits is so with them, or refused.
  subst hstream
  refine hmore fun hv => ?_
  by_cases hmal : (read (decoderLimits usizeMax) 0 x.stream).status = .malformed
  · rw [ending, hmal] at hv
    cases hv
  · rw [read_stream rfl hmal] at hrest
    rw [ending, hrest] at hv
    cases hv

theorem call_chunked (hx : x.framed = .chunked) : CallSpec x.ChunkedInv x.Final := by
  rintro m b r ⟨u, i, c, d, v, said, rfl, htook, hb, hstream, hsettle, htail, rfl⟩
  -- A read leaves less on the connection.
  induction hn : c.bytes.length using Nat.strong_induction_on generalizing u i c d v said with
  | _ n ih =>
    have hbody : b <+: x.framed.body x.stream := hb ▸ body_prefix_body hx hstream
    obtain ⟨d', res, hd⟩ : ∃ d' res, (d.push i).stepUntilBlocked = (d', res) := ⟨_, _, rfl⟩
    obtain ⟨htook', hending⟩ := ending_of_turn htook hd
    have hbody' := congrArg Ending.body hending
    rw [ending_body] at hbody'
    rw [← append_assoc] at hstream
    cases res with
    | error e =>
      have hstop : settled usizeMax (u ++ i) := by
        rw [settled, hending]
        exact nofun
      refine .inr ⟨_, _, nextChunk_of_returns
        (turn_of_chunkError _ _ _ _ hd), (fun _ h => by cases h), rfl, hbody, ?_⟩
      rw [overlooked_chunked_iff hx, ← hsettle, settle, if_pos hstop]
      rintro ⟨hstatus, -⟩
      rw [ending, hstatus] at hending
      cases hending
    | ok said' =>
      have hturn := turn_chunked (some c) i [] x.keepalive hd
      have hdone := (stepUntilBlocked_eq_ok hd).2
      have hstop : settled usizeMax (u ++ i) ↔ d'.isDone := by
        rw [settled, hending, hdone]
        cases said' <;> simp [Verdict.of]
      by_cases hrest : (d'.isDone && d'.hasRemainingInput)
      · -- More than the message was read.
        rw [if_pos hrest] at hturn
        rw [Bool.and_eq_true] at hrest
        refine .inr ⟨_, _, nextChunk_of_returns hturn, (fun _ h => by cases h), rfl, hbody, ?_⟩
        rw [overlooked_chunked_iff hx, ← hsettle, settle, if_pos (hstop.2 hrest.1)]
        rintro ⟨hstatus, -⟩
        rw [ending, hstatus, hdone.1 hrest.1] at hending
        have hinput := congrArg Ending.unread hending
        rw [hasRemainingInput, ← Option.some.inj hinput] at hrest
        exact absurd hrest.2 (by decide)
      rw [if_neg hrest] at hturn
      by_cases hne : d'.body ≠ []
      · rw [if_pos hne] at hturn
        refine .inl ⟨d'.body, _, nextChunk_of_returns hturn, c.bytes.length, ?_, u ++ i,
          [], c, d'.takeBody.2, _, said', rfl, htook', hbody'.symm, ?_, ?_, htail, rfl⟩
        · -- There is new data, so there was new input.
          have hi : i ≠ [] := fun hi => by
            rw [hi, append_nil, ← hb] at hbody'
            exact hne (self_eq_append_right.1 hbody')
          have := length_pos_of_ne_nil hi
          rw [length_append]
          omega
        · rw [← hstream, nil_append]
        · rw [← hsettle, settle, settle, append_nil]
      rw [if_neg hne] at hturn
      rw [not_not.1 hne, append_nil] at hbody' htook'
      by_cases hfin : d'.isDone
      · -- The message is complete, and no more was read.
        rw [if_pos hfin] at hturn
        rw [hfin, Bool.true_and, hasRemainingInput, Bool.not_eq_true',
          Bool.not_eq_false, List.isEmpty_iff] at hrest
        have hverdict := congrArg Ending.verdict hending
        rw [hdone.1 hfin] at hverdict
        obtain ⟨rest, hstatus, hunread⟩ := status_of_done hverdict
        rw [hending, hrest, hdone.1 hfin] at hunread
        rw [← Option.some.inj hunread] at hstatus
        refine .inr ⟨_, _, nextChunk_of_returns hturn, (fun _ h => by cases h),
          final_ended_chunked hx hstatus hbody'.symm ?_ hstream rfl rfl⟩
        rw [← hsettle, settle, if_pos (hstop.2 hfin)]
      · rw [if_neg hfin] at hturn
        have hmore : ¬ settled usizeMax (u ++ i) := hstop.not.2 hfin
        rw [settle, if_neg hmore] at hsettle
        have hcall := nextChunk_of_reads hturn rfl
        rcases c.read_spec (Nat.succ_pos 8191) with
          ⟨s, c', hread, -, -, hbytes, htail'⟩ | ⟨hread, hnil⟩
        · -- More is read, and the loop goes on.
          rw [show readLimit ⟨some c, .chunked d'.takeBody.2, [], [], x.keepalive⟩ =
            8191 + 1 from rfl, hread] at hcall
          have hlt := length_of_read (Nat.succ_pos _) hread
          rcases ih _ (hn ▸ hlt) (u ++ i) s c' d'.takeBody.2 _ said' htook' hbody'.symm
            (by rw [← hbytes, hstream]) (by rw [← hsettle, reads_of_data hread])
            (htail'.trans htail) rfl with ⟨t, r', hnext, m', hm', hinv⟩ | hfinal
          · refine .inl ⟨t, r', hcall.trans hnext, m', ?_, hinv⟩
            rw [← hbytes] at hm'
            rw [length_append]
            omega
          · rw [hcall]
            exact .inr hfinal
        · -- Nothing more comes.
          have hspared : ¬ x.Overlooked := by
            rw [overlooked_chunked_iff hx, ← hsettle, reads_of_atTail hread]
            exact fun h => h.2 rfl
          rw [hnil, append_nil] at hstream
          rw [show readLimit ⟨some c, .chunked d'.takeBody.2, [], [], x.keepalive⟩ =
            8191 + 1 from rfl, hread] at hcall
          cases ht : c.tail with
          | quiet =>
            rw [ht] at hcall
            exact .inr ⟨_, _, hcall, (fun _ h => by cases h),
              final_waiting_chunked hx hmore hstream (htail.symm.trans ht) rfl hbody hspared⟩
          | closed | broken =>
            rw [ht] at hcall
            exact .inr ⟨_, _, hcall, (fun _ h => by cases h), rfl, hbody, hspared⟩

theorem leads_chunked (hx : x.framed = .chunked) : x.Leads x.ChunkedInv where
  call := call_chunked hx
  start := ⟨_, Nat.le_refl _, [], x.leftover, x.conn, .new usizeMax, .needsMore, .needMore,
    by rw [reader, hx]; rfl, took_start usizeMax,
    by rw [← ending_body, ← (took_start usizeMax).ending]; rfl, rfl, rfl, rfl, rfl⟩
  keeps := by
    rintro m b r ⟨u, i, c, d, v, said, rfl, -, rfl, hstream, -⟩
    exact ⟨rfl, body_prefix_body hx hstream⟩
  beyond := by
    rw [overlooked_chunked_iff hx, hx]
    rintro ⟨hstatus, hne⟩
    have hall := (read_append (decoderLimits usizeMax) 0 _
      (settle usizeMax [] x.pieces).2.flatten).complete [] hstatus
    rw [settle_append, nil_append, nil_append, pieces, flatten_cons, flatten_reads] at hall
    refine ⟨_, hne, ?_⟩
    rw [stream, read_stream (congrArg status hall) nofun, hall, pieces]

/-- A body reader keeps its promises unless it overlooks bytes after the body. -/
theorem sound_iff (x : Incoming) : x.Sound ↔ ¬ x.Overlooked := by
  cases hx : x.framed with
  | fixed n => exact (leads_fixed hx).sound_iff_final
  | chunked => exact (leads_chunked hx).sound_iff_final
  | eof => exact (leads_eof hx).sound_iff_final

/-- Overlooked bytes or not: until the reader has settled, after one call more than the stream has
    bytes at most, it has returned a part of the body and given up no connection. Then the body is
    complete and the connection is placed once, or there is a failure or nothing to read yet and no
    connection is placed. The reader never lacks a connection. -/
theorem pulls_settle (x : Incoming) (k : Nat) : let t := pulls k x.reader
    (t.outcome = none → k ≤ x.stream.length ∧ t.reader.completed = [] ∧
      t.chunks.flatten <+: x.framed.body x.stream) ∧
    ∀ out ∈ t.outcome, x.Final out t.chunks.flatten t.reader := by
  intro t
  obtain ⟨inv, h⟩ : ∃ inv, x.Leads inv := by
    cases hx : x.framed with
    | fixed n => exact ⟨_, leads_fixed hx⟩
    | chunked => exact ⟨_, leads_chunked hx⟩
    | eof => exact ⟨_, leads_eof hx⟩
  obtain ⟨m, hm, hstart⟩ := h.start
  rcases pulls_spec h.call hstart k with ⟨m', hout, hk, hinv⟩ | ⟨out, hout, hfinal⟩
  · refine ⟨fun _ => ⟨by omega, h.keeps _ _ _ hinv⟩, ?_⟩
    rintro out hsome
    cases hout.symm.trans hsome
  · refine ⟨fun hnone => (by cases hout.symm.trans hnone), fun out' hsome => ?_⟩
    cases hout.symm.trans hsome
    exact hfinal

def threeForTwo : Incoming := ⟨.fixed 2, [], ⟨[[0x61, 0x62, 0x63]], .quiet⟩, true⟩

/-- The reader is done after two bytes, and the connection is kept with the third on it. -/
theorem threeForTwo_not_sound : ¬ threeForTwo.Sound :=
  (leads_fixed rfl).sound_iff_final.not.2 (not_not.2 ⟨by decide, by decide⟩)

end Incoming

end ZeroProxy.Kernel
