import ZeroProxy.Kernel.Fetch
import ZeroProxy.Ws.Client

/-!
# The WebSocket handshake

`handshake` (`kernel/transport/ws_client.rs`): the request to upgrade is written, the head of the
response is read in chunks, and the connection is handed to the reader task. What a chunk holds
after the head is dropped with the buffer.
-/

namespace ZeroProxy.Ws

open Bytes Codec Http List Nat Option Text Decoder

/-! ## The request -/

/-- `WsUrl`. -/
structure WsUrl where
  secure : Bool
  host : Text
  port : Nat
  pathAndQuery : Text

/-- Why a handshake fails. -/
inductive HandshakeError
  /-- No key could be drawn. -/
  | key
  /-- `WS_BLOCKED: invalid handshake identity header`. -/
  | identity
  /-- `ws-handshake-write`. -/
  | write
  /-- `ws-handshake-read`. -/
  | read
  /-- `ws-handshake-eof`. -/
  | eof
  /-- `ws-handshake-too-large`. -/
  | tooLarge
  /-- `ws-handshake-parse`. -/
  | parse
  /-- `ws-handshake-incomplete`. -/
  | incomplete
  /-- `ws-handshake-status`. -/
  | status (code : Nat)
  /-- `ws-handshake-headers`. -/
  | headers
  /-- `WS_BLOCKED: ws-protocol-not-offered`. -/
  | protocol

/-- The `Host` of a target. -/
def WsUrl.hostHeader (u : WsUrl) : Text :=
  if !u.secure && u.port == 80 || u.secure && u.port == 443 then u.host
  else u.host ++ ':' :: (toString u.port).toList

def line (name value : Text) : Text := name ++ ": " ++ value ++ "\r\n"

/-- The identity headers, where every one of them may be sent. -/
def identityLines : List (Text × Text) → Option Text
  | [] => some []
  | (name, value) :: headers =>
    if ! ["Origin".toList, "User-Agent", "Cookie"].contains name ||
        value.any (fun c => c == '\r' || c == '\n' || c == '\x00') then none
    else (identityLines headers).map fun rest =>
      (if value.isEmpty then [] else line name value) ++ rest

def upgradeRequest (u : WsUrl) (key : Text) (protocols : List Text)
    (identity : List (Text × Text)) : Option Text :=
  (identityLines identity).map fun identity =>
    "GET " ++ u.pathAndQuery ++ " HTTP/1.1\r\n" ++
    line "Host" u.hostHeader ++
    line "Upgrade" "websocket" ++
    line "Connection" "Upgrade" ++
    line "Sec-WebSocket-Version" "13" ++
    line "Sec-WebSocket-Key" key ++ identity ++
    (if protocols.isEmpty then []
      else line "Sec-WebSocket-Protocol" (", ".toList.intercalate protocols)) ++
    "\r\n"

/-! ## The response -/

/-- What a parser makes of the bytes so far. -/
inductive ParsedHead
  | error
  | incomplete
  | complete (code : Option Nat) (headers : List (Text × Bytes))
  deriving DecidableEq

/-- A parser of response heads (`httparse`); what follows a complete head does not matter to it. -/
structure UpgradeParser where
  parse : Bytes → ParsedHead
  stable : ∀ head rest code headers, findCrlf2 head = some head.length →
    parse head = .complete code headers → parse (head ++ rest) = .complete code headers

/-- What the headers of a response say. -/
structure Upgraded where
  upgrade : Bool
  connection : Bool
  accept : Bool
  protocol : Text

def Upgraded.addValue (expected : Text) (x : Upgraded) (name value : Text) : Upgraded :=
  if eqCI name "upgrade" then
    if eqCI (rustTrim value) "websocket" then { x with upgrade := true } else x
  else if eqCI name "connection" then
    if (tokens value).any fun t => eqCI t "upgrade" then { x with connection := true } else x
  else if eqCI name "sec-websocket-accept" then
    if rustTrim value == expected then { x with accept := true } else x
  else if eqCI name "sec-websocket-protocol" then { x with protocol := rustTrim value }
  else x

/-- One header of a response; a value that is not UTF-8 is taken for an empty one. -/
def Upgraded.add (expected : Text) (x : Upgraded) (header : Text × Bytes) : Upgraded :=
  x.addValue expected header.1 ((fromUtf8 header.2).getD [])

/-- The protocol that a response head negotiates, if it upgrades the connection. -/
def checkUpgrade (parser : UpgradeParser) (expected : Text) (protocols : List Text) (buf : Bytes) :
    Except HandshakeError Text :=
  match parser.parse buf with
  | .error => .error .parse
  | .incomplete => .error .incomplete
  | .complete code headers =>
    if code != some 101 then .error (.status (code.getD 0))
    else
      let x := headers.foldl (Upgraded.add expected) ⟨false, false, false, []⟩
      if !x.upgrade || !x.connection || !x.accept then .error .headers
      else if !x.protocol.isEmpty && !protocols.isEmpty && !protocols.contains x.protocol then
        .error .protocol
      else .ok x.protocol

/-- What the wait for the head comes to. -/
inductive UpgradeRead
  | ok (buf : Bytes) (conn : Source UInt8)
  | error (e : HandshakeError)
  | pending

/-- The loop that reads until the head is complete, 16 KiB at most. -/
def readUpgrade (buf : Bytes) (c : Source UInt8) : UpgradeRead :=
  match _h : c.read 1024 with
  | .data s rest =>
    if (findCrlf2 (buf ++ s)).isSome then .ok (buf ++ s) rest
    else if 16384 < (buf ++ s).length then .error .tooLarge
    else readUpgrade (buf ++ s) rest
  | .eof => .error .eof
  | .error => .error .read
  | .pending => .pending
termination_by c.bytes.length
decreasing_by exact Source.length_of_read (succ_pos 1023) _h

/-- What a handshake comes to: the protocol, and the connection that the reader task gets. -/
inductive Handshake
  | ok (protocol : Text) (conn : Source UInt8)
  | error (e : HandshakeError)
  | pending

/-- `handshake`; `accept` is the answer that a key asks for (`expected_accept`). -/
def handshake (parser : UpgradeParser) (accept : Text → Text) (key : Option Text) (u : WsUrl)
    (protocols : List Text) (identity : List (Text × Text)) (c : Kernel.Http1.Conn) : Handshake :=
  match key with
  | none => .error .key
  | some key =>
    match upgradeRequest u key protocols identity with
    | none => .error .identity
    | some request =>
      match c.write (utf8 request) with
      | none => .error .write
      | some c =>
        match readUpgrade [] c.source with
        | .error e => .error e
        | .pending => .pending
        | .ok buf conn =>
          match checkUpgrade parser (accept key) protocols buf with
          | .error e => .error e
          | .ok protocol => .ok protocol conn

/-! ## The hand-over -/

theorem readUpgrade_of_data {buf s : Bytes} {c c' : Source UInt8} (h : c.read 1024 = .data s c') :
    readUpgrade buf c =
      if (findCrlf2 (buf ++ s)).isSome then .ok (buf ++ s) c'
      else if 16384 < (buf ++ s).length then .error .tooLarge
      else readUpgrade (buf ++ s) c' := by
  rw [readUpgrade]
  split
  · next s' d h' =>
    rw [h] at h'
    cases h'
    rfl
  all_goals
    next h' =>
    rw [h] at h'
    cases h'

theorem readUpgrade_of_atTail {buf buf' : Bytes} {c c' : Source UInt8}
    (h : c.read 1024 = Source.atTail c.tail) : readUpgrade buf c ≠ .ok buf' c' := by
  rw [readUpgrade]
  split
  · next s d h' =>
    rw [h] at h'
    cases ht : c.tail <;> rw [ht] at h' <;> cases h'
  all_goals exact nofun

theorem readUpgrade_spec {buf buf' : Bytes} {c c' : Source UInt8}
    (h : readUpgrade buf c = .ok buf' c') :
    buf' ++ c'.bytes = buf ++ c.bytes ∧ c'.tail = c.tail := by
  induction hn : c.bytes.length using Nat.strong_induction_on generalizing buf c with
  | _ n ih =>
    obtain ⟨s, d, hread, -, -, hbytes, htail⟩ | ⟨hread, -⟩ := c.read_spec (succ_pos 1023)
    · rw [readUpgrade_of_data hread] at h
      split_ifs at h
      · cases h
        rw [hbytes, append_assoc]
        exact ⟨rfl, htail⟩
      · obtain ⟨hstream, htail'⟩ :=
          ih _ (hn ▸ Source.length_of_read (succ_pos 1023) hread) h rfl
        rw [hbytes, ← append_assoc]
        exact ⟨hstream, htail'.trans htail⟩
    · exact absurd h (readUpgrade_of_atTail hread)

/-- Reads end exactly where the head ends, before it got too long. -/
def EndsAtHead (head buf : Bytes) (reads : List Bytes) : Prop :=
  ∃ i, buf ++ (reads.take i).flatten = head ∧
    ∀ j < i, (buf ++ (reads.take j).flatten).length ≤ 16384

theorem endsAtHead_cons {head buf s : Bytes} {reads : List Bytes} (hbuf : buf.length ≤ 16384)
    (hlt : buf.length < head.length) :
    EndsAtHead head buf (s :: reads) ↔ EndsAtHead head (buf ++ s) reads := by
  constructor
  · rintro ⟨_ | i, heq, hj⟩
    · rw [take_zero, flatten_nil, append_nil] at heq
      rw [heq] at hlt
      exact absurd hlt (lt_irrefl _)
    · rw [take_succ_cons, flatten_cons, ← append_assoc] at heq
      refine ⟨i, heq, fun j hlt => ?_⟩
      have := hj (j + 1) (succ_lt_succ hlt)
      rwa [take_succ_cons, flatten_cons, ← append_assoc] at this
  rintro ⟨i, heq, hj⟩
  refine ⟨i + 1, ?_, ?_⟩
  · rw [take_succ_cons, flatten_cons, ← append_assoc, heq]
  · rintro (_ | j) hlt'
    · rwa [take_zero, flatten_nil, append_nil]
    · rw [take_succ_cons, flatten_cons, ← append_assoc]
      exact hj j (lt_of_succ_lt_succ hlt')

section

variable {head rest : Bytes}

theorem findCrlf2_append {s : Bytes} {n : Nat} (h : findCrlf2 s = some n) (t : Bytes) :
    findCrlf2 (s ++ t) = some n := by
  obtain ⟨p, hp, rfl⟩ := map_eq_some_iff.1 h
  rw [findCrlf2, position_append hp]
  rfl

theorem le_of_findCrlf2 {s : Bytes} {n : Nat} (h : findCrlf2 s = some n) : n ≤ s.length := by
  obtain ⟨p, hp, rfl⟩ := map_eq_some_iff.1 h
  exact position_le hp

theorem isSome_findCrlf2_iff {buf t : Bytes} (hhead : findCrlf2 head = some head.length)
    (h : buf ++ t = head ++ rest) : (findCrlf2 buf).isSome ↔ head.length ≤ buf.length := by
  constructor
  · intro hsome
    obtain ⟨n, hn⟩ := isSome_iff_exists.1 hsome
    have hboth := findCrlf2_append hn t
    rw [h, findCrlf2_append hhead rest] at hboth
    cases hboth
    exact le_of_findCrlf2 hn
  · intro hle
    obtain ⟨x, rfl⟩ := prefix_of_prefix_length_le ⟨rest, rfl⟩ (h ▸ prefix_append buf t) hle
    rw [findCrlf2_append hhead x]
    rfl

theorem readUpgrade_eq_ok_iff {buf : Bytes} {c : Source UInt8}
    (hhead : findCrlf2 head = some head.length) (hbuf : buf.length ≤ 16384)
    (hlt : buf.length < head.length) (h : buf ++ c.bytes = head ++ rest) :
    (∃ c', readUpgrade buf c = .ok head c') ↔ EndsAtHead head buf (c.reads 1023) := by
  -- By induction on what is still to be read.
  induction hn : c.bytes.length using Nat.strong_induction_on generalizing buf c with
  | _ n ih =>
    obtain ⟨s, d, hread, -, -, hbytes, -⟩ | ⟨-, hnil⟩ := c.read_spec (succ_pos 1023)
    · rw [hbytes, ← append_assoc] at h
      have hfound := isSome_findCrlf2_iff hhead h
      rw [readUpgrade_of_data hread, Source.reads_of_data hread, endsAtHead_cons hbuf hlt]
      by_cases hle : head.length ≤ (buf ++ s).length
      · -- The head is there; it must be all that is there.
        rw [if_pos (hfound.2 hle)]
        constructor
        · rintro ⟨c', heq⟩
          cases heq
          exact ⟨0, append_nil _, fun j hj => absurd hj (not_lt_zero j)⟩
        rintro ⟨i, heq, -⟩
        have hlen := congrArg length heq
        rw [length_append] at hlen
        have hrest : (take i (d.reads 1023)).flatten = [] :=
          length_eq_zero_iff.1 (by omega)
        rw [hrest, append_nil] at heq
        exact ⟨d, by rw [heq]⟩
      · rw [if_neg (fun hsome => hle (hfound.1 hsome))]
        by_cases hlong : 16384 < (buf ++ s).length
        · rw [if_pos hlong]
          constructor
          · rintro ⟨c', heq⟩
            cases heq
          rintro ⟨_ | i, heq, hj⟩
          · rw [take_zero, flatten_nil, append_nil] at heq
            exact absurd (le_of_eq (congrArg length heq).symm) hle
          · have := hj 0 (succ_pos i)
            rw [take_zero, flatten_nil, append_nil] at this
            exact absurd hlong (not_lt.2 this)
        · rw [if_neg hlong]
          exact ih _ (hn ▸ Source.length_of_read (succ_pos 1023) hread) (not_lt.1 hlong)
            (not_le.1 hle) h rfl
    · rw [hnil, append_nil] at h
      have := congrArg length h
      rw [length_append] at this
      omega

end

/-! ## The frames after the handshake -/

/-- The first `n` frames that the reader task decodes. -/
def frames : Nat → Source UInt8 → List Frame
  | 0, _ => []
  | n + 1, c =>
    match readFrame.run c with
    | .ok f c => f :: frames n c
    | _ => []

theorem frames_eq {c d : Source UInt8} (h : c.bytes = d.bytes) (n : Nat) :
    frames n c = frames n d := by
  induction n generalizing c d with
  | zero => rfl
  | succ n ih =>
    rw [frames, frames]
    cases hparse : readFrame.parse c.bytes with
    | ok f rest =>
      obtain ⟨c', hc, hcb, -⟩ := exists_run_of_parse hparse
      rw [h] at hparse
      obtain ⟨d', hd, hdb, -⟩ := exists_run_of_parse hparse
      rw [hc, hd]
      dsimp only
      rw [ih (hcb.trans hdb.symm)]
    | error e =>
      have hc := run_of_parse_error hparse
      rw [h] at hparse
      rw [hc, run_of_parse_error hparse]
    | short =>
      have hc := run_of_parse_short hparse
      rw [h] at hparse
      rw [hc, run_of_parse_short hparse]

/-- A connection that is upgraded: the request that was made for it, and a response head that is
    accepted, whose end is the first empty line. -/
structure Upgrade (parser : UpgradeParser) (accept : Text → Text) where
  key : Text
  url : WsUrl
  protocols : List Text
  identity : List (Text × Text)
  request : Text
  built : upgradeRequest url key protocols identity = some request
  head : Bytes
  ends : findCrlf2 head = some head.length
  protocol : Text
  accepted : checkUpgrade parser (accept key) protocols head = .ok protocol

variable {parser : UpgradeParser} {accept : Text → Text}

/-- A connection on which the head and then the rest of a stream arrive, cut in any way. -/
structure Arrival (x : Upgrade parser accept) (rest : Bytes) extends Kernel.Http1.Conn where
  arrives : source.bytes = x.head ++ rest

def Upgrade.handshake (x : Upgrade parser accept) (c : Kernel.Http1.Conn) : Handshake :=
  Ws.handshake parser accept (some x.key) x.url x.protocols x.identity c

/-- The reader task gets all that follows the head, so that it decodes the same frames however the
    stream was cut. -/
def HandsOver (rest : Bytes) (tail : Tail) (out : Handshake) : Prop :=
  ∃ protocol conn, out = .ok protocol conn ∧ conn.bytes = rest ∧ conn.tail = tail ∧
    ∀ n, frames n conn = frames n ⟨[rest], tail⟩

theorem head_ne_nil (x : Upgrade parser accept) : 0 < x.head.length := by
  obtain ⟨p, -, hp⟩ := map_eq_some_iff.1 x.ends
  omega

theorem Upgrade.accepted_append (x : Upgrade parser accept) (t : Bytes) :
    checkUpgrade parser (accept x.key) x.protocols (x.head ++ t) = .ok x.protocol := by
  have haccepted := x.accepted
  rw [checkUpgrade] at haccepted ⊢
  cases hparse : parser.parse x.head with
  | error | incomplete =>
    rw [hparse] at haccepted
    cases haccepted
  | complete code headers =>
    rw [parser.stable _ t _ _ x.ends hparse]
    rwa [hparse] at haccepted

variable {c c' : Kernel.Http1.Conn}

theorem source_of_write {b : Bytes} (h : c.write b = some c') : c'.source = c.source := by
  rw [Kernel.Http1.Conn.write] at h
  split at h
  · cases h
    rfl
  · split_ifs at h
    cases h
    rfl

theorem isSome_write_iff {c : Kernel.Http1.Conn} {b : Bytes} :
    (c.write b).isSome ↔ ∀ n ∈ c.accepts, b.length ≤ n := by
  obtain ⟨_ | n, flushes, source⟩ := c
  · simp [Kernel.Http1.Conn.write]
  · simp only [Kernel.Http1.Conn.write]
    split_ifs with h <;> simp [h]

theorem Upgrade.handshake_of_read (x : Upgrade parser accept)
    {conn : Source UInt8} {t : Bytes} (hwrite : c.write (utf8 x.request) = some c')
    (hread : readUpgrade [] c.source = .ok (x.head ++ t) conn) :
    x.handshake c = .ok x.protocol conn := by
  rw [Upgrade.handshake, Ws.handshake, x.built]
  dsimp only
  rw [hwrite]
  dsimp only
  rw [source_of_write hwrite, hread]
  dsimp only
  rw [x.accepted_append]

/-- The reader task gets all that follows the head if, and only if, the connection takes the
    request and one of its reads ends exactly where the head ends, none of those before going
    beyond 16 KiB. -/
theorem handsOver_iff (x : Upgrade parser accept) (rest : Bytes) (c : Arrival x rest) :
    HandsOver rest c.source.tail (x.handshake c.toConn) ↔
      (∀ n ∈ c.accepts, (utf8 x.request).length ≤ n) ∧
        EndsAtHead x.head [] (c.source.reads 1023) := by
  have hhead : (∃ c', readUpgrade [] c.source = .ok x.head c') ↔
      EndsAtHead x.head [] (c.source.reads 1023) :=
    readUpgrade_eq_ok_iff x.ends (zero_le _) (head_ne_nil x) c.arrives
  rw [← isSome_write_iff, ← hhead, Upgrade.handshake, Ws.handshake, x.built]
  dsimp only
  cases hwrite : c.toConn.write (utf8 x.request) with
  | none => simp [HandsOver]
  | some c' =>
    dsimp only
    rw [source_of_write hwrite]
    cases hread : readUpgrade [] c.source with
    | error e | pending => simp [HandsOver]
    | ok buf conn =>
      obtain ⟨hstream, htail⟩ := readUpgrade_spec hread
      rw [c.arrives] at hstream
      simp only [isSome_some, true_and, UpgradeRead.ok.injEq, exists_eq_right']
      constructor
      · rintro ⟨protocol, conn', hout, hrest, -⟩
        have hconn : conn' = conn := by
          cases hcheck : checkUpgrade parser (accept x.key) x.protocols buf with
          | error e =>
            rw [hcheck] at hout
            cases hout
          | ok protocol =>
            rw [hcheck] at hout
            cases hout
            rfl
        rw [← hconn, hrest] at hstream
        exact append_cancel_right hstream
      · rintro rfl
        have hrest := append_cancel_left hstream
        refine ⟨x.protocol, conn, by rw [x.accepted], hrest, htail, frames_eq ?_⟩
        rw [hrest]
        exact (append_nil rest).symm

/-- The name and the value of a header line. -/
def splitHeader (l : Text) : Text × Bytes :=
  (l.takeWhile (· != ':'), utf8 (rustTrim ((l.dropWhile (· != ':')).drop 1)))

/-- A plain parser: the lines up to the first empty one, of which the first has the code as its
    second word. -/
def plainParser : UpgradeParser where
  parse b :=
    match findCrlf2 b with
    | none => .incomplete
    | some n =>
      match ((b.take (n - 4)).map fun x => Char.ofNat x.toNat).splitOn '\n' with
      | [] => .error
      | status :: lines =>
        .complete (((status.splitOn ' ')[1]?).bind (parseUnsigned 1000)) (lines.map splitHeader)
  stable head rest code headers hends h := by
    rw [findCrlf2_append hends]
    rw [hends] at h
    dsimp only at h ⊢
    rwa [take_append_of_le_length (Nat.sub_le _ _)]

/-- The answer that the key of `switching` asks for. -/
def sampleAccept : Text := "s3pPLMBiTxaQ9kYGzzhZRbK+xOo="

/-- The headers of an upgrade. -/
def upgradeHeaders : List (Text × Text) := [("Upgrade", "websocket"), ("Connection", "Upgrade"),
    ("Sec-WebSocket-Accept", sampleAccept)]

/-- The head of a response that upgrades the connection. -/
def switchingHead : Bytes := utf8 ("HTTP/1.1 101 Switching Protocols\r\n" ++
  upgradeHeaders.flatMap (fun e => line e.1 e.2) ++ "\r\n")

theorem parse_switchingHead : plainParser.parse switchingHead =
    .complete (some 101) (upgradeHeaders.map fun e => (e.1, utf8 e.2)) := by
  decide +kernel

theorem ends_switchingHead : findCrlf2 switchingHead = some switchingHead.length := by
  decide +kernel

theorem checkUpgrade_switchingHead :
    checkUpgrade plainParser sampleAccept [] switchingHead = .ok [] := by
  have hadd : ∀ x (e : Text × Text),
      Upgraded.add sampleAccept x (e.1, utf8 e.2) = x.addValue sampleAccept e.1 e.2 := by
    intro x e
    rw [Upgraded.add, fromUtf8_utf8]
    rfl
  rw [checkUpgrade, parse_switchingHead]
  dsimp only
  rw [foldl_map]
  simp only [hadd]
  rfl

/-- A request of an upgrade, and its response. -/
def switching : Upgrade plainParser fun _ => sampleAccept where
  key := "dGhlIHNhbXBsZSBub25jZQ=="
  url := ⟨true, "chat.test", 443, "/"⟩
  protocols := []
  identity := []
  request := (upgradeRequest ⟨true, "chat.test", 443, "/"⟩ "dGhlIHNhbXBsZSBub25jZQ==" [] []).getD []
  built := rfl
  head := switchingHead
  ends := ends_switchingHead
  protocol := []
  accepted := checkUpgrade_switchingHead

/-- A text frame that says `hi`. -/
def greetingFrame : Bytes := [0x81, 0x02, 0x68, 0x69]

/-- A server that greets with the head of its response is not heard: the greeting is dropped. -/
theorem greeting_dropped : ¬HandsOver greetingFrame .quiet
    (switching.handshake ⟨none, true, ⟨[switching.head ++ greetingFrame], .quiet⟩⟩) := by
  have hread : readUpgrade [] ⟨[switching.head ++ greetingFrame], .quiet⟩ =
      .ok (switching.head ++ greetingFrame) ⟨[[]], .quiet⟩ := by
    rw [@readUpgrade_of_data [] (switching.head ++ greetingFrame)
      ⟨[switching.head ++ greetingFrame], .quiet⟩ ⟨[[]], .quiet⟩ rfl, nil_append,
      findCrlf2_append switching.ends]
    rfl
  rw [switching.handshake_of_read rfl hread]
  rintro ⟨protocol, conn, hout, hrest, -⟩
  cases hout
  cases hrest

end ZeroProxy.Ws
