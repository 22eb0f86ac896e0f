import ZeroProxy.Kernel.Response
import ZeroProxy.Kernel.BodyReader

/-!
# Requests of the kernel

`send_request` (`kernel/transport/http1.rs`) writes a request to a connection, reads the head of
the response off it, and has the body pulled from it as its framing says; the codec writes and
reads the heads (`zp-transport-codec/src/http1.rs`). `fetch` (`kernel/transport/fetch.rs`) sends a
request on the pooled HTTP/2 client of its origin, or else on a pooled HTTP/1.1 connection, or else
on a connection opened for it. An attempt on a pooled connection that fails is followed by the next
one, however far the request got.
-/

namespace ZeroProxy.Codec

open Bytes Http List Text

/-! ## Requests -/

/-- Why a request head is not built. -/
inductive BuildError
  /-- `method contains invalid token bytes`. -/
  | method
  /-- `request-URI must be non-empty and whitespace-free`. -/
  | path
  /-- `header name is not a valid HTTP token`. -/
  | name (name : Text)
  /-- `header value contains CR/LF`. -/
  | value (name : Text)
  /-- `Host header missing and no host provided`. -/
  | host

def wantsContentLength (method : Text) (bodyLen : Nat) : Bool :=
  decide (0 < bodyLen) || eqCI method "POST" || eqCI method "PUT"

/-- The first header that cannot be written. -/
def checkHeaders : List (Text × Text) → Except BuildError Unit
  | [] => .ok ()
  | (name, value) :: headers =>
    if !isToken name then .error (.name name)
    else if (utf8 value).any (fun b => b == cr || b == lf) then .error (.value name)
    else checkHeaders headers

def headerLine (name value : Text) : Bytes := utf8 name ++ utf8 ": " ++ utf8 value ++ crlf

def hasHeader (headers : List (Text × Text)) (name : Text) : Bool := headers.any fun e => eqCI e.1 name

def buildRequestHead (method hostHeader path : Text) (headers : List (Text × Text))
    (bodyLen : Nat) : Except BuildError Bytes :=
  if !isToken method then .error .method
  else if path.isEmpty || (utf8 path).any (fun b => b == 0x20 || b == cr || b == lf) then
    .error .path
  else match checkHeaders headers with
  | .error e => .error e
  | .ok () =>
    let line := utf8 method ++ [0x20] ++ utf8 path ++ utf8 " HTTP/1.1" ++ crlf
    let given := headers.flatMap fun e => headerLine e.1 e.2
    if !hasHeader headers "host" && hostHeader.isEmpty then .error .host
    else
      let host := if hasHeader headers "host" then []
        else headerLine "Host" hostHeader
      let length := if wantsContentLength method bodyLen &&
          !hasHeader headers "content-length" &&
          !hasHeader headers "transfer-encoding" then
        headerLine "Content-Length" (toString bodyLen).toList else []
      let connection := if hasHeader headers "connection" then []
        else headerLine "Connection" "keep-alive"
      .ok (line ++ given ++ host ++ length ++ connection ++ crlf)

/-! ## Responses -/

/-- `find_crlf2`: the length of the head. -/
def findCrlf2 (b : Bytes) : Option Nat := (position (crlf ++ crlf) b).map (· + 4)

def tokens (value : Text) : List Text := (split (· == ',') value).map rustTrim

/-- `header_terminal_chunked`: the last coding of the first `Transfer-Encoding`. -/
def headerTerminalChunked (headers : List (Text × Text)) : Bool :=
  match headers.find? fun e => eqCI e.1 "transfer-encoding" with
  | none => false
  | some e => (tokens e.2).getLast?.any fun last => eqCI last "chunked"

/-- `str::parse` at an unsigned type with `size` values: digits, after a plus sign perhaps. -/
def parseUnsigned (size : Nat) (s : Text) : Option Nat :=
  let digits := match s with
    | '+' :: rest => rest
    | _ => s
  let n := digits.foldl (fun n c => 10 * n + (c.toNat - 0x30)) 0
  if digits.isEmpty || !digits.all isAsciiDigit then none
  else if n < size then some n else none

/-- Why a length is refused. -/
inductive LengthError
  /-- `bad Content-Length`. -/
  | bad (value : Text)
  /-- `conflicting Content-Length`. -/
  | conflicting

/-- The loop of `header_content_length`. -/
def contentLengthFrom (found : Option Nat) : List (Text × Text) → Except LengthError (Option Nat)
  | [] => .ok found
  | (name, value) :: headers =>
    if !eqCI name "content-length" then contentLengthFrom found headers
    else match parseUnsigned UInt64.size (rustTrim value) with
    | none => .error (.bad value)
    | some n =>
      if found.any (· != n) then .error .conflicting else contentLengthFrom (some n) headers

def headerContentLength (headers : List (Text × Text)) : Except LengthError (Option Nat) :=
  contentLengthFrom none headers

def hasToken (headers : List (Text × Text)) (name token : Text) : Bool :=
  headers.any fun e => eqCI e.1 name && (tokens e.2).any fun t => eqCI t token

def responseKeepalive (status : Nat) (headers : List (Text × Text)) : Bool :=
  !hasToken headers "connection" "close" &&
    (headerTerminalChunked headers || hasHeader headers "content-length" ||
      Kernel.noBodyStatus status)

/-! ## The lines of a request -/

/-- A line that is not empty and is not broken. -/
def IsLine (l : Bytes) : Prop := l ≠ [] ∧ cr ∉ l

def headOf (lines : List Bytes) : Bytes := lines.flatMap (· ++ crlf) ++ crlf

theorem splitPair_headOf {lines : List Bytes} (h : ∀ l ∈ lines, IsLine l) :
    splitPair cr lf (headOf lines) = lines ++ [[], []] := by
  induction lines with
  | nil => rfl
  | cons l lines ih =>
    rw [forall_mem_cons] at h
    rw [headOf, flatMap_cons, append_assoc, append_assoc, ← headOf]
    exact (splitPair_append h.1.2 _).trans (congrArg (l :: ·) (ih h.2))

theorem findCrlf2_headOf {lines : List Bytes} (hne : lines ≠ [])
    (h : ∀ l ∈ lines, IsLine l) : findCrlf2 (headOf lines) = some (headOf lines).length := by
  induction lines with
  | nil => exact absurd rfl hne
  | cons l lines ih =>
    rw [forall_mem_cons] at h
    rw [headOf, flatMap_cons, append_assoc, append_assoc, ← headOf, findCrlf2,
      show crlf ++ crlf = cr :: [lf, cr, lf] from rfl, position_append_of_notMem h.1.2]
    cases lines with
    | nil => simp [headOf, crlf, position]
    | cons k lines =>
      obtain ⟨q, hq, hlen⟩ := Option.map_eq_some_iff.1 (ih (cons_ne_nil k lines) h.2)
      -- The next line does not start with a CR, so this is not the end.
      obtain ⟨d, v, rfl⟩ := exists_cons_of_ne_nil (h.2 k (.head _)).1
      have hd : cr ≠ d := fun hd => (h.2 _ (.head _)).2 (hd ▸ .head _)
      have hnot : ¬ isPrefixOf [cr, lf, cr, lf] (cr :: ([lf] ++ headOf ((d :: v) :: lines))) := by
        simp [headOf, hd]
      rw [show crlf ++ headOf _ = cr :: ([lf] ++ headOf ((d :: v) :: lines)) from rfl, position,
        if_neg hnot, position_append_of_notMem (by decide),
        show position [cr, lf, cr, lf] _ = some q from hq]
      simp [← hlen]
      omega

theorem cr_notMem_utf8 {s : Text} (h : '\r' ∉ s) : cr ∉ utf8 s := by
  intro hmem
  obtain ⟨c, hc, hb⟩ := mem_flatMap.1 hmem
  rw [String.utf8EncodeChar] at hb
  split_ifs at hb with hascii <;>
    simp [cr, ← UInt8.toNat_inj] at hb
  · have hcr : c.toNat = 13 := by
      rw [Char.toNat] at hb ⊢
      omega
    exact h ((@Char.toNat_inj c '\r').1 hcr ▸ hc)
  all_goals omega

theorem cr_notMem_of_isToken {s : Text} (h : isToken s) : '\r' ∉ s := by
  rw [isToken, Bool.and_eq_true, all_eq_true] at h
  exact fun hmem => absurd (h.2 _ hmem) (by decide)

/-- A header on a line of its own. -/
def fieldOf (e : Text × Text) : Bytes := utf8 e.1 ++ utf8 ": " ++ utf8 e.2

theorem isLine_fieldOf {name value : Text} (hname : '\r' ∉ name) (hvalue : cr ∉ utf8 value) :
    IsLine (fieldOf (name, value)) := by
  refine ⟨append_ne_nil_of_left_ne_nil (append_ne_nil_of_right_ne_nil _ (by decide)) _, ?_⟩
  rw [fieldOf, mem_append, mem_append, not_or, not_or]
  exact ⟨⟨cr_notMem_utf8 hname, cr_notMem_utf8 (by decide)⟩, hvalue⟩

variable {method hostHeader path : Text} {headers : List (Text × Text)} {bodyLen : Nat}

theorem isLine_of_checkHeaders (h : checkHeaders headers = .ok ()) :
    ∀ l ∈ headers.map fieldOf, IsLine l := by
  induction headers with
  | nil => exact nofun
  | cons e headers ih =>
    rw [checkHeaders] at h
    split_ifs at h with hname hvalue
    rw [Bool.not_eq_true, any_eq_false] at hvalue
    exact forall_mem_cons.2 ⟨isLine_fieldOf (cr_notMem_of_isToken (by simpa using hname))
      fun hmem => hvalue _ hmem rfl, ih h⟩

def requestLine (method path : Text) : Bytes :=
  utf8 method ++ [0x20] ++ utf8 path ++ utf8 " HTTP/1.1"

/-- The headers that are added when the caller gave none. -/
def addedLines (method hostHeader : Text) (headers : List (Text × Text)) (bodyLen : Nat) : List Bytes :=
  (if hasHeader headers "host" then [] else [fieldOf ("Host", hostHeader)]) ++
  (if wantsContentLength method bodyLen && !hasHeader headers "content-length" &&
    !hasHeader headers "transfer-encoding" then
    [fieldOf ("Content-Length", (toString bodyLen).toList)] else []) ++
  if hasHeader headers "connection" then [] else [fieldOf ("Connection", "keep-alive")]

theorem isLine_addedLines (hhost : '\r' ∉ hostHeader) :
    ∀ l ∈ addedLines method hostHeader headers bodyLen, IsLine l := by
  intro l hl
  have hlength : '\r' ∉ (toString bodyLen).toList := by
    simpa [Nat.repr] using fun hmem =>
      absurd (Nat.isDigit_of_mem_toDigits (by decide) (by decide) hmem) (by decide)
  simp only [addedLines, mem_append, mem_ite_nil_left, mem_ite_nil_right, mem_singleton] at hl
  rcases hl with (⟨-, rfl⟩ | ⟨-, rfl⟩) | ⟨-, rfl⟩
  · exact isLine_fieldOf (by decide) (cr_notMem_utf8 hhost)
  · exact isLine_fieldOf (by decide) (cr_notMem_utf8 hlength)
  · exact isLine_fieldOf (by decide) (cr_notMem_utf8 (by decide))

/-- The head that is built ends where its first empty line ends. Its lines are the request line, the
    headers that were given, and those that are added. -/
theorem lines_buildRequestHead {b : Bytes} (hhost : ∀ c ∈ hostHeader, c ≠ '\r' ∧ c ≠ '\n')
    (h : buildRequestHead method hostHeader path headers bodyLen = .ok b) :
    findCrlf2 b = some b.length ∧ splitPair cr lf b = requestLine method path ::
      headers.map fieldOf ++ addedLines method hostHeader headers bodyLen ++ [[], []] := by
  rw [buildRequestHead] at h
  split at h
  · cases h
  next hmethod =>
  split at h
  · cases h
  next hpath =>
  split at h
  · cases h
  next hheaders =>
  dsimp only at h
  split at h
  · cases h
  have hb : b = headOf (requestLine method path :: headers.map fieldOf ++
      addedLines method hostHeader headers bodyLen) := by
    simp only [headOf, requestLine, addedLines, flatMap_cons, flatMap_append, flatMap_map,
      apply_ite (flatMap _), flatMap_nil, append_nil, append_assoc]
    rw [← Except.ok.inj h]
    simp only [append_assoc]
    rfl
  have hline : IsLine (requestLine method path) := by
    rw [Bool.not_eq_true, Bool.or_eq_false_iff, any_eq_false] at hpath
    refine ⟨by simp [requestLine], ?_⟩
    simp only [requestLine, mem_append, not_or]
    exact ⟨⟨⟨cr_notMem_utf8 (cr_notMem_of_isToken (by simpa using hmethod)), by decide⟩,
      fun hmem => hpath.2 _ hmem rfl⟩, cr_notMem_utf8 (by decide)⟩
  have hadded := @isLine_addedLines method hostHeader headers bodyLen fun hcr => (hhost _ hcr).1 rfl
  have hlines := forall_mem_append.2
    ⟨forall_mem_cons.2 ⟨hline, isLine_of_checkHeaders hheaders⟩, hadded⟩
  rw [hb]
  exact ⟨findCrlf2_headOf (cons_ne_nil _ _) hlines, splitPair_headOf hlines⟩

/-- A body of three bytes, and a header of the page. -/
theorem lines_buildRequestHead_post : ∃ b,
    buildRequestHead "POST" "a.test" "/" [("accept", "*/*")] 3 = .ok b ∧
      findCrlf2 b = some b.length ∧ fieldOf ("accept", "*/*") ∈ splitPair cr lf b :=
  have h := @lines_buildRequestHead "POST" "a.test" "/" [("accept", "*/*")] 3 _ (by simp) rfl
  ⟨_, rfl, h.1, h.2 ▸ by simp⟩

end ZeroProxy.Codec

namespace ZeroProxy.Kernel

open Bytes Codec Http List Option Text

/-- A request, as the kernel gets it. -/
structure Request where
  method : Text
  scheme : Text
  host : Text
  path : Text
  headers : List (Text × Text)
  body : Bytes

/-- Why an attempt fails. -/
inductive SendError
  | build (e : BuildError)
  /-- The method or the address is not one. -/
  | invalid
  /-- The connection fails, or the stack below it. -/
  | io
  /-- `response head exceeded limit`. -/
  | headTooLong
  /-- The head is not one. -/
  | head
  /-- `truncated response`. -/
  | truncated
  /-- `unexpected protocol upgrade`. -/
  | upgrade
  /-- `unsupported Transfer-Encoding`. -/
  | transferEncoding
  | contentLength (e : LengthError)
  | finish (e : FinishError)

/-- How an attempt ends. -/
inductive SendResult
  | ok (response : Finished)
  | error (e : SendError)
  | pending

def SendResult.fails : SendResult → Bool
  | .error _ => true
  | _ => false

/-- An attempt to send a request: whether all of it was written, and how it ends. -/
structure Attempt where
  written : Bool
  result : SendResult

/-- The result of a response whose body is pulled, and may stop coming. -/
def SendResult.of (stalled : Bool) : Except FinishError Finished → SendResult
  | .ok response => .ok response
  | .error e => if stalled && e == .upstream then .pending else .error (.finish e)

namespace Http1

/-- How a connection is going to behave: the number of bytes it takes before a write fails, if
    one does, whether it can be flushed, and what is read from it. -/
structure Conn where
  accepts : Option Nat
  flushes : Bool
  source : Source UInt8

def Conn.write (c : Conn) (b : Bytes) : Option Conn :=
  match c.accepts with
  | none => some c
  | some n => if b.length ≤ n then some { c with accepts := some (n - b.length) } else none

/-- The head of a response. -/
structure ResponseHead where
  status : Nat
  reason : Text
  headers : List (Text × Text)
  headLen : Nat

/-- `parse_response_head`; a head that it reads has a length. -/
structure HeadParser where
  parse : Bytes → Option ResponseHead
  headLen_pos : ∀ b head, parse b = some head → 0 < head.headLen

/-- What a parser makes of the bytes so far. -/
inductive HeadResult
  | ok (head : ResponseHead) (http11 : Bool) (input : Bytes) (conn : Source UInt8)
  | error (e : SendError)
  | pending

variable (codecs : Codecs) (parser : HeadParser)

/-- The loop that reads heads until one is final. -/
def readHead (input : Bytes) (c : Source UInt8) : HeadResult :=
  match _hend : findCrlf2 input with
  | some n =>
    if maxHeadBytes < n then .error .headTooLong
    else match _hparse : parser.parse input with
    | none => .error .head
    | some head =>
      -- 100 Continue and 103 Early Hints can share a read with the final head.
      if decide (100 ≤ head.status ∧ head.status < 200) && head.status != 101 then
        readHead (input.drop head.headLen) c
      else .ok head ((utf8 "HTTP/1.1 ").isPrefixOf input) (input.drop head.headLen) c
  | none =>
    if maxHeadBytes < input.length then .error .headTooLong
    else match _hread : c.read 4096 with
    | .data s c' => readHead (input ++ s) c'
    | .eof => .error .truncated
    | .error => .error .io
    | .pending => .pending
termination_by 2 * c.bytes.length + input.length
decreasing_by
  · have hpos := parser.headLen_pos _ _ _hparse
    have hne : input ≠ [] := fun h => by
      rw [h] at _hend
      cases _hend
    have := length_pos_of_ne_nil hne
    rw [length_drop]
    omega
  rcases c.read_spec (Nat.succ_pos 4095) with ⟨t, d, hread, hne, -, hbytes, -⟩ | ⟨hread, -⟩
  · rw [_hread] at hread
    cases hread
    have := length_pos_of_ne_nil hne
    rw [hbytes, length_append, length_append]
    omega
  · rw [_hread] at hread
    cases ht : c.tail <;> rw [ht] at hread <;> cases hread

def transferCodings (headers : List (Text × Text)) : List Text :=
  (headers.filter fun e => eqCI e.1 "transfer-encoding").flatMap fun e => tokens e.2

def hasNoBody (method : Text) (status : Nat) : Bool := eqCI method "HEAD" || noBodyStatus status

def framing (method : Text) (head : ResponseHead) : Except SendError Framed :=
  let transfer := transferCodings head.headers
  let nullBody := hasNoBody method head.status
  if !nullBody && !transfer.isEmpty &&
      (transfer.length != 1 || !transfer.all fun t => eqCI t "chunked") then
    .error .transferEncoding
  else if nullBody then .ok (.fixed 0)
  else if !transfer.isEmpty then .ok .chunked
  else match headerContentLength head.headers with
  | .error e => .error (.contentLength e)
  | .ok (some n) => .ok (.fixed n)
  | .ok none => .ok .eof

/-- The connection may be used again after the body. -/
def keepalive (req : Request) (head : ResponseHead) (http11 : Bool) (framed : Framed) : Bool :=
  (match framed with
    | .eof => false
    | _ => true) &&
  responseKeepalive (if hasNoBody req.method head.status then 204 else head.status) head.headers &&
  !hasToken req.headers "connection" "close" &&
  (http11 || hasToken head.headers "connection" "keep-alive")

def respond (req : Request) (head : ResponseHead) (http11 : Bool) (input : Bytes)
    (c : Source UInt8) : SendResult :=
  if head.status == 101 then .error .upgrade
  else match framing req.method head with
  | .error e => .error e
  | .ok framed =>
    let x : Incoming := ⟨framed, input, c, keepalive req head http11 framed⟩
    let t := pulls (x.stream.length + 1) x.reader
    let ended := match t.outcome with
      | some .ended => true
      | _ => false
    let stalled := match t.outcome with
      | some .waiting => true
      | _ => false
    .of stalled (finish codecs head.status head.reason head.headers
      (hasNoBody req.method head.status) ⟨t.chunks, !ended⟩).1

def sendRequest (c : Conn) (req : Request) : Attempt :=
  match buildRequestHead req.method req.host req.path req.headers req.body.length with
  | .error e => ⟨false, .error (.build e)⟩
  | .ok head =>
    match (c.write head).bind fun c => c.write req.body with
    | none => ⟨false, .error .io⟩
    | some c =>
      if !c.flushes then ⟨true, .error .io⟩
      else match readHead parser [] c.source with
      | .error e => ⟨true, .error e⟩
      | .pending => ⟨true, .pending⟩
      | .ok head http11 input c => ⟨true, respond codecs req head http11 input c⟩

def Conn.Takes (c : Conn) (req : Request) : Prop :=
  ∃ head, buildRequestHead req.method req.host req.path req.headers req.body.length = .ok head ∧
    ∀ n ∈ c.accepts, head.length + req.body.length ≤ n

variable {codecs parser}

theorem isSome_write {c : Conn} {a b : Bytes} :
    ((c.write a).bind fun c => c.write b).isSome ↔ ∀ n ∈ c.accepts, a.length + b.length ≤ n := by
  obtain ⟨_ | n, flushes, source⟩ := c
  · simp [Conn.write]
  simp only [Conn.write, mem_some_iff, forall_eq']
  split_ifs with ha
  · rw [bind_some]
    dsimp only
    split_ifs with hb
    · simp only [isSome_some, true_iff]
      omega
    · simp only [isSome_none, Bool.false_eq_true, false_iff]
      omega
  · simp only [bind_none, isSome_none, Bool.false_eq_true, false_iff]
    omega

theorem written_sendRequest (c : Conn) (req : Request) :
    (sendRequest codecs parser c req).written ↔ c.Takes req := by
  rw [sendRequest, Conn.Takes]
  cases buildRequestHead req.method req.host req.path req.headers req.body.length with
  | error e => simp
  | ok head =>
    have hwrite := @isSome_write c head req.body
    simp only [Except.ok.injEq, exists_eq_left', ← hwrite]
    cases (c.write head).bind fun c => c.write req.body with
    | none => rfl
    | some c =>
      simp only
      split_ifs
      · rfl
      · split <;> rfl

end Http1

end ZeroProxy.Kernel

namespace ZeroProxy.Kernel.Http2

/-! ## HTTP/2

`send_request` (`kernel/transport/http2.rs`): the request is one message, and the body of the
response is checked against its length while it is pulled. -/

open Bytes Codec Http Text

/-- What the library of HTTP types takes for a method, an address, a header name and a header
    value, and the reason it gives for a status. -/
structure Wire where
  method : Text → Bool
  uri : Text → Bool
  name : Text → Bool
  value : Text → Bool
  reason : Nat → Text

/-- A request as the library gets it. -/
structure Message where
  method : Text
  uri : Text
  headers : List (Text × Text)
  body : Bytes

/-- How the data of an HTTP/2 body stop. -/
inductive BodyEnd
  /-- The stream ends, with trailers that can be read or not. -/
  | ended (trailers : Bool)
  | failed
  | pending

/-- What comes of a request. -/
inductive Reply
  | head (status : Nat) (headers : List (Text × Text)) (chunks : List Bytes) (last : BodyEnd)
  | failed
  | pending

/-- Whether a new stream can be opened. -/
inductive Readiness
  | ready
  | failed
  | pending

/-- How a client is going to behave: whether it can open a stream, takes the head and the data,
    gets all of it out on the connection, and what it gets back. -/
structure Client where
  readiness : Readiness
  takesHead : Bool
  takesData : Bool
  delivers : Bool
  reply : Message → Reply

variable (wire : Wire) (codecs : Codecs)

def connectionHeaders : List Text := ["host", "connection", "keep-alive", "proxy-connection",
    "transfer-encoding", "upgrade", "te"]

/-- The headers of a message: its length, where the caller gives none, and those the library
    takes. -/
def requestHeaders (req : Request) : List (Text × Text) :=
  (if wantsContentLength req.method req.body.length &&
      !hasHeader req.headers "content-length" then
    [("content-length".toList, (toString req.body.length).toList)] else []) ++
  req.headers.filterMap fun e =>
    let lower := e.1.map Char.toLower
    if connectionHeaders.contains lower || !wire.name e.1 || !wire.value e.2 then none
    else some (lower, e.2)

def message (req : Request) : Message :=
  ⟨req.method, req.scheme ++ "://" ++ req.host ++ req.path, requestHeaders wire req, req.body⟩

/-- A body as it was pulled: its chunks, and whether it ended or stalled. -/
structure Pulled where
  chunks : List Bytes
  ended : Bool
  stalled : Bool

/-- The body is pulled to its end, against the length it should have. -/
def pullBody (nullBody : Bool) (length : Option Nat) (last : BodyEnd) :
    Nat → List Bytes → Pulled
  | received, [] =>
    match last with
    | .ended trailers => ⟨[], trailers && !length.any (received != ·), false⟩
    | .failed => ⟨[], false, false⟩
    | .pending => ⟨[], false, true⟩
  | received, chunk :: chunks =>
    let received := received + chunk.length
    if decide (UInt64.size ≤ received) || (nullBody && !chunk.isEmpty) ||
        length.any (decide <| · < received) then ⟨[], false, false⟩
    else
      let p := pullBody nullBody length last received chunks
      ⟨chunk :: p.chunks, p.ended, p.stalled⟩

def respond (req : Request) : Reply → SendResult
  | .failed => .error .io
  | .pending => .pending
  | .head status headers chunks last =>
    let nullBody := req.method == "HEAD" || noBodyStatus status
    match if nullBody then .ok none else headerContentLength headers with
    | .error e => .error (.contentLength e)
    | .ok length =>
      let p := pullBody nullBody length last 0 chunks
      .of p.stalled (finish codecs status (wire.reason status) headers nullBody
        ⟨p.chunks, !p.ended⟩).1

def sendRequest (c : Client) (req : Request) : Attempt :=
  let m := message wire req
  if !wire.method m.method || !wire.uri m.uri then ⟨false, .error .invalid⟩
  else match c.readiness with
  | .failed => ⟨false, .error .io⟩
  | .pending => ⟨false, .pending⟩
  | .ready =>
    if !c.takesHead then ⟨false, .error .io⟩
    else if !m.body.isEmpty && !c.takesData then ⟨false, .error .io⟩
    else ⟨c.delivers, respond wire codecs req (c.reply m)⟩

def Client.Takes (c : Client) (m : Message) : Prop :=
  wire.method m.method ∧ wire.uri m.uri ∧ c.readiness = .ready ∧ c.takesHead ∧
    (m.body = [] ∨ c.takesData) ∧ c.delivers

variable {wire codecs}

theorem written_sendRequest (c : Client) (req : Request) :
    (sendRequest wire codecs c req).written ↔ c.Takes wire (message wire req) := by
  rw [sendRequest, Client.Takes]
  generalize message wire req = m
  by_cases hmethod : wire.method m.method
  · by_cases huri : wire.uri m.uri
    · cases c.readiness with
      | failed | pending => simp [hmethod, huri]
      | ready =>
        by_cases hhead : c.takesHead
        · by_cases hbody : m.body = []
          · simp [hmethod, huri, hhead, hbody]
          · by_cases hdata : c.takesData <;> simp [hmethod, huri, hhead, hbody, hdata]
        · simp [hmethod, huri, hhead]
    · simp [huri]
  · simp [hmethod]

end ZeroProxy.Kernel.Http2

namespace ZeroProxy.Kernel

open Bytes Codec Http List Text Http1

/-! ## The target -/

/-- An address as the browser's parser takes it apart. -/
structure UrlParts where
  protocol : Text
  hostname : Text
  port : Text
  pathname : Text
  search : Text

/-- The parts of a URL that the kernel dials. -/
structure ParsedUrl where
  scheme : Text
  host : Text
  port : Nat
  path : Text

/-- Why an address is refused. -/
inductive UrlError
  | bad
  | scheme (scheme : Text)
  | emptyHost
  | port (port : Text)

def portOf (scheme port : Text) : Option Nat :=
  if port.isEmpty then some (if scheme == "https" then 443 else 80)
  else parseUnsigned UInt16.size port

def parseUrl : Option UrlParts → Except UrlError ParsedUrl
  | none => .error .bad
  | some u =>
    let scheme := (trimEndMatches ':' u.protocol).map Char.toLower
    if scheme != "http" && scheme != "https" then .error (.scheme scheme)
    else if u.hostname.isEmpty then .error .emptyHost
    else match portOf scheme u.port with
    | none => .error (.port u.port)
    | some port =>
      let path := u.pathname ++ u.search
      .ok ⟨scheme, u.hostname, port, if path.isEmpty then "/" else path⟩

def hostHeader (u : ParsedUrl) : Text :=
  if u.scheme == "http" && u.port == 80 || u.scheme == "https" && u.port == 443 then
    u.host
  else u.host ++ ':' :: (toString u.port).toList

/-! ## The attempts -/

/-- What comes of opening a connection (`open_fresh`). -/
inductive Fresh
  | failed
  | pending
  | http1 (conn : Http1.Conn)
  | http2 (client : Http2.Client)

/-- What a fetch finds: the client and the connection that the pools have for its origin when it
    looks, and the connection it can open. -/
structure Supply where
  http2 : Option Http2.Client
  http1 : Option Http1.Conn
  fresh : Fresh

/-- The errors of a fetch. -/
inductive FetchError
  | url (e : UrlError)
  /-- `SW_NOT_READY`. -/
  | relay
  /-- `TARGET_CONNECT_FAILED` or `TARGET_TLS_FAILED`. -/
  | connect
  /-- `TARGET_HTTP_FAILED`. -/
  | http (e : SendError)

/-- What a fetch returns. -/
inductive FetchResult
  | ok (response : Finished)
  | error (e : FetchError)
  | pending

def FetchResult.of : SendResult → FetchResult
  | .ok response => .ok response
  | .error e => .error (.http e)
  | .pending => .pending

/-- The run of a fetch. -/
structure Run where
  attempts : List Attempt
  result : FetchResult

open Run

/-- An attempt on a pooled connection, where there is one, and what follows if it fails. -/
def Run.after (pooled : Option Attempt) (next : Run) : Run :=
  match pooled with
  | none => next
  | some a => if a.result.fails then ⟨a :: next.attempts, next.result⟩ else ⟨[a], .of a.result⟩

section

variable (codecs : Codecs) (parser : Http1.HeadParser) (wire : Http2.Wire)

def coldRequest (req : Request) : Fresh → Run
  | .failed => ⟨[], .error .connect⟩
  | .pending => ⟨[], .pending⟩
  | .http1 conn =>
    let a := sendRequest codecs parser conn req
    ⟨[a], .of a.result⟩
  | .http2 client =>
    let a := Http2.sendRequest wire codecs client req
    ⟨[a], .of a.result⟩

def ParsedUrl.request (u : ParsedUrl) (method : Text) (headers : List (Text × Text))
    (body : Bytes) : Request :=
  ⟨method, u.scheme, hostHeader u, u.path, headers, body⟩

/-- `fetch`; `relay` is false where the worker has no location to find the relay by. -/
def fetch (relay : Bool) (supply : Supply) (url : Option UrlParts) (method : Text)
    (headers : List (Text × Text)) (body : Bytes) : Run :=
  match parseUrl url with
  | .error e => ⟨[], .error (.url e)⟩
  | .ok u =>
    if !relay then ⟨[], .error .relay⟩
    else
      let req := u.request method headers body
      .after (supply.http2.map fun client => Http2.sendRequest wire codecs client req) <|
        .after (supply.http1.map fun conn => sendRequest codecs parser conn req) <|
          coldRequest codecs parser wire req supply.fresh

end

/-! ## Requests that must not be repeated -/

def idempotentMethods : List Text := ["GET", "HEAD", "OPTIONS", "TRACE", "PUT", "DELETE"]

/-- The request is written to one connection at most, and the failure of an attempt that wrote it
    is the end of the fetch. -/
structure Run.SentOnce (r : Run) : Prop where
  written : (r.attempts.filter (·.written)).length ≤ 1
  reported : ∀ before a rest, r.attempts = before ++ a :: rest → a.written → a.result.fails →
    rest = [] ∧ r.result = .of a.result

/-- A failure of an attempt is not reported by a run that made none. -/
def Run.Honest (r : Run) : Prop := r.attempts = [] → ∀ e, r.result ≠ .error (.http e)

theorem Run.sentOnce_single (a : Attempt) : (mk [a] (.of a.result)).SentOnce where
  written := length_filter_le _ _
  reported := by
    intro before b rest h _ _
    obtain ⟨rfl, hcons⟩ | ⟨_, _, hnil⟩ := append_eq_cons_iff.1 h.symm
    · rw [cons.injEq] at hcons
      exact ⟨hcons.2, by rw [hcons.1]⟩
    · simp at hnil

theorem Run.sentOnce_nil (result : FetchResult) : (mk [] result).SentOnce where
  written := Nat.zero_le _
  reported := by
    intro before b rest h
    simp at h

theorem Run.sentOnce_cons {a : Attempt} {r : Run} (hfails : a.result.fails) (hr : r.Honest) :
    (mk (a :: r.attempts) r.result).SentOnce ↔ ¬a.written ∧ r.SentOnce := by
  constructor
  · intro h
    have ha : ¬a.written := by
      intro hwritten
      -- The attempt would have to be the last, and its failure the result of the run.
      obtain ⟨hrest, hresult⟩ := h.reported [] a r.attempts rfl hwritten hfails
      cases hs : a.result with
      | ok response | pending =>
        rw [hs] at hfails
        cases hfails
      | error e =>
        rw [hs] at hresult
        exact hr hrest e hresult
    refine ⟨ha, ?_, ?_⟩
    · have hw := h.written
      rwa [filter_cons_of_neg ha] at hw
    · intro before b rest heq
      exact h.reported (a :: before) b rest (by rw [heq, cons_append])
  · rintro ⟨ha, h⟩
    refine ⟨?_, ?_⟩
    · rw [filter_cons_of_neg ha]
      exact h.written
    intro before b rest heq hwritten hb
    obtain ⟨rfl, hcons⟩ | ⟨before, rfl, htail⟩ := append_eq_cons_iff.1 heq.symm
    · rw [cons.injEq] at hcons
      rw [hcons.1] at hwritten
      exact absurd hwritten ha
    · exact h.reported before b rest htail hwritten hb

theorem Run.Honest.after {r : Run} (hr : r.Honest) (pooled : Option Attempt) :
    (after pooled r).Honest := by
  cases pooled with
  | none => exact hr
  | some a =>
    rw [Run.after]
    intro h
    split_ifs at h

theorem Run.sentOnce_after {r : Run} (hr : r.Honest) (pooled : Option Attempt) :
    (after pooled r).SentOnce ↔ (∀ a ∈ pooled, ¬(a.written ∧ a.result.fails)) ∧
        ((∀ a ∈ pooled, a.result.fails) → r.SentOnce) := by
  cases pooled with
  | none => simp [after]
  | some a =>
    rw [after]
    simp only [Option.mem_some_iff, forall_eq']
    split_ifs with hfails
    · rw [sentOnce_cons hfails hr]
      simp [hfails]
    · refine iff_of_true (sentOnce_single a) ⟨fun h => hfails h.2, fun h => absurd h hfails⟩

section

variable {codecs : Codecs} {parser : Http1.HeadParser} {wire : Http2.Wire}

theorem coldRequest_honest (req : Request) (fresh : Fresh) :
    (coldRequest codecs parser wire req fresh).Honest := by
  cases fresh with
  | failed | pending | http1 conn | http2 client => exact nofun

theorem coldRequest_sentOnce (req : Request) (fresh : Fresh) :
    (coldRequest codecs parser wire req fresh).SentOnce := by
  cases fresh with
  | failed | pending => exact sentOnce_nil _
  | http1 conn | http2 client => exact sentOnce_single _

variable (codecs parser wire)

/-- No pooled connection that the fetch turns to takes all of the request and then fails: neither
    the client, nor the connection if there is no client or the client fails. -/
def Supply.Settles (supply : Supply) (req : Request) : Prop :=
  (∀ client ∈ supply.http2, client.Takes wire (Http2.message wire req) →
      ¬(Http2.sendRequest wire codecs client req).result.fails) ∧
    ((∀ client ∈ supply.http2, (Http2.sendRequest wire codecs client req).result.fails) →
      ∀ conn ∈ supply.http1, conn.Takes req → ¬(sendRequest codecs parser conn req).result.fails)

/-- A request that must not be repeated is sent once if, and only if, no pooled connection that
    the fetch turns to fails after it took all of the request. -/
theorem fetch_sentOnce_iff (relay : Bool) (supply : Supply) (url : Option UrlParts) (method : Text)
    (headers : List (Text × Text)) (body : Bytes) :
    (method ∉ idempotentMethods →
        (fetch codecs parser wire relay supply url method headers body).SentOnce) ↔
      (method ∉ idempotentMethods → relay → ∀ u, parseUrl url = .ok u →
        supply.Settles codecs parser wire (u.request method headers body)) := by
  refine imp_congr_right fun _ => ?_
  rw [fetch]
  cases parseUrl url with
  | error e =>
    refine iff_of_true (sentOnce_nil _) ?_
    rintro _ u ⟨⟩
  | ok u =>
    cases relay with
    | false => exact iff_of_true (sentOnce_nil _) nofun
    | true =>
      simp only [Bool.not_true, Bool.false_eq_true, if_false, true_implies, Except.ok.injEq,
        forall_eq']
      -- The client first, then the connection; the attempt after them is the last one anyway.
      have hcold := @coldRequest_honest codecs parser wire
        (u.request method headers body) supply.fresh
      rw [sentOnce_after (hcold.after _), sentOnce_after hcold, Supply.Settles]
      simp only [Option.mem_map, forall_exists_index, and_imp, forall_apply_eq_imp_iff₂, not_and,
        written_sendRequest, Http2.written_sendRequest, coldRequest_sentOnce, implies_true,
        and_true]

end

/-- A connection that takes all it is given and is closed before anything comes back. -/
def closing : Http1.Conn := ⟨none, true, ⟨[], .closed⟩⟩

section

variable {codecs : Codecs} {parser : Http1.HeadParser} {wire : Http2.Wire}

theorem sendRequest_closing {req : Request} {head : Bytes}
    (h : buildRequestHead req.method req.host req.path req.headers req.body.length = .ok head) :
    sendRequest codecs parser closing req = ⟨true, .error .truncated⟩ := by
  have hread : readHead parser [] closing.source = .error .truncated := by
    rw [readHead]
    rfl
  have hwrite : ((closing.write head).bind fun c => c.write req.body) = some closing := rfl
  rw [sendRequest, h]
  dsimp only
  rw [hwrite]
  dsimp only
  rw [hread]
  rfl

theorem attempts_fetch_closing {url : Option UrlParts} {u : ParsedUrl} {method : Text}
    {headers : List (Text × Text)} {body head : Bytes} (hurl : parseUrl url = .ok u)
    (hhead : buildRequestHead method (hostHeader u) u.path headers body.length = .ok head) :
    (fetch codecs parser wire true ⟨none, some closing, .http1 closing⟩ url method headers
      body).attempts = [⟨true, .error .truncated⟩, ⟨true, .error .truncated⟩] := by
  have ha := @sendRequest_closing codecs parser (u.request method headers body) head hhead
  rw [fetch, hurl]
  simp only [Option.map_some, coldRequest, ha]
  rfl

end

/-- An order is sent twice, when a pooled connection is closed with the order on it. -/
theorem order_sent_twice : ¬("POST".toList ∉ idempotentMethods →
      (fetch mirror ⟨fun _ => none, nofun⟩
        ⟨fun _ => true, fun _ => true, fun _ => true, fun _ => true, fun _ => []⟩ true
        ⟨none, some closing, .http1 closing⟩
        (some ⟨"https:", "shop.test", [], "/order", []⟩) "POST" []
        (utf8 "item=1")).SentOnce) := by
  intro h
  have hwritten := (h (by decide)).written
  rw [attempts_fetch_closing rfl rfl] at hwritten
  exact absurd hwritten (by decide)

end ZeroProxy.Kernel
