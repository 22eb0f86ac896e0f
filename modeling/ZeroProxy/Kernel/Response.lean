import ZeroProxy.Http.Headers

/-!
# The kernel's responses

How the transport kernel makes a `Response` of what an upstream server sent
(`kernel/transport/http2.rs`, `fetch.rs`), and `finish_response` chunk by chunk, with the decoders
of `decode.rs` and the streams it hands to the page.
-/

namespace ZeroProxy.Kernel

open Http List Option Text Headers

/-- What an upstream server sent: the head, and the body as it arrives. -/
structure Upstream where
  status : Nat
  reason : Text
  headers : List (Text × Text)
  body : Stream
  /-- The answer to a `HEAD` request. -/
  isHead : Bool

/-- Functions of the kernel that are parameters here. -/
structure Deps where
  /-- A buffered body without its content codings. -/
  decodeBody : Text → Bytes → Option Bytes
  /-- A streamed body without its content coding. -/
  decodeStream : Text → Stream → Option Stream
  /-- `is_challenge_document`, given the value of `cf-mitigated` and the URL. -/
  isChallengeDocument : Text → Text → Bool

variable (deps : Deps)

def maxDecodedBytes : Nat := 32 * 1024 * 1024

def noBodyStatus (status : Nat) : Bool :=
  decide (100 ≤ status ∧ status ≤ 199) || status == 204 || status == 304

def header (headers : List (Text × Text)) (name : Text) : Option Text :=
  (headers.find? fun e => eqCI e.1 name).map (·.2)

/-- The type in the first `Content-Type`, without parameters. -/
def contentType (headers : List (Text × Text)) : Text := match header headers "content-type" with
  | none => []
  | some v => rustTrim (v.takeWhile (· != ';'))

/-- A response, buffered or streamed. -/
inductive Finished
  | buffered (status : Nat) (reason : Text) (headers : List (Text × Text)) (body : Bytes)
      (nullBody : Bool)
  | streaming (status : Nat) (reason : Text) (headers : List (Text × Text)) (stream : Stream)

/-- The headers without those that described the transfer. -/
def withoutCoding (headers : List (Text × Text)) : List (Text × Text) :=
  headers.filter fun e => !eqCI e.1 "content-encoding" &&
    !eqCI e.1 "content-length" && !eqCI e.1 "transfer-encoding"

def nullBody (up : Upstream) : Bool :=
  up.isHead || noBodyStatus up.status || isNullBodyStatus up.status

/-- `finish_response`: null bodies, scripts, style sheets and codings the browser cannot
    decode are buffered. -/
def finishResponse (up : Upstream) : Option Finished :=
  let nullBody := nullBody up
  let encodings := (up.headers.filter fun e => eqCI e.1 "content-encoding").map (·.2)
  let contentEncoding := ",".toList.intercalate encodings
  let type := (contentType up.headers).map Char.toLower
  let executable := Text.contains type "javascript" ||
    Text.contains type "ecmascript" || type == "text/css"
  let coding := (rustTrim contentEncoding).map Char.toLower
  let identity := coding.isEmpty || coding == "identity"
  let streamable := identity || coding == "gzip" || coding == "x-gzip" ||
    coding == "deflate"
  if nullBody || executable || !streamable then do
    let body ← up.body.readAll
    if nullBody && !body.isEmpty || maxDecodedBytes < body.length then none
    else if nullBody then some (.buffered up.status up.reason up.headers body true)
    else do
      let body ← deps.decodeBody contentEncoding body
      let length := (toString body.length).toList
      some (.buffered up.status up.reason
        (withoutCoding up.headers ++ [("Content-Length".toList, length)]) body false)
  else if identity then
    some (.streaming up.status up.reason (withoutCoding up.headers) up.body)
  else do
    let stream ← deps.decodeStream coding up.body
    some (.streaming up.status up.reason (withoutCoding up.headers) stream)

/-- The markers that only the kernel sets. -/
def isStreamMarker (name : Text) : Bool := eqCI name "x-zp-body-stream" || eqCI name "x-zp-stream"

/-- The headers that the server sent and a `Headers` object accepts. -/
def acceptedHeaders (headers : List (Text × Text)) : Headers :=
  headers.foldl (fun h e => if isStreamMarker e.1 then h else h.append e.1 e.2) .empty

def buildResponseHeaders (headers : List (Text × Text)) (finalUrl : Text)
    (armedChallengeCompat : Bool) : Headers :=
  let setCookies := (headers.filter fun e => !isStreamMarker e.1 && eqCI e.1 "set-cookie").map (·.2)
  let h := acceptedHeaders headers
  let h := if setCookies.isEmpty then h
    else h.append "X-ZP-Set-Cookie" ("\t".toList.intercalate setCookies)
  let cf := (header headers "cf-mitigated").getD []
  if armedChallengeCompat && deps.isChallengeDocument cf finalUrl then
    h.append "X-ZP-Challenge-Compat" "1"
  else h

/-- `build_js_response` and `build_streaming_js_response`: a buffered body is one chunk, a
    streamed one is marked. -/
def buildResponse (finalUrl : Text) (armed : Bool) : Finished → Option Response
  | .buffered status reason headers body nullBody =>
    newResponse status reason (buildResponseHeaders deps headers finalUrl armed)
      (if nullBody then .null else .network ⟨[body], false⟩ .fresh)
  | .streaming status reason headers stream =>
    let h := (buildResponseHeaders deps headers finalUrl armed).set "X-ZP-Body-Stream"
      "1"
    let isHtml := eqCI (contentType headers) "text/html"
    newResponse status reason (if isHtml then h.set "X-ZP-Stream" "1" else h)
      (if isNullBodyStatus status then .null else .network stream .fresh)

/-- What `kernelFetch` resolves to for an answer of the server; `none` when it rejects. -/
def kernelResponse (finalUrl : Text) (armed : Bool) (up : Upstream) : Option Response :=
  (finishResponse deps up).bind (buildResponse deps finalUrl armed)

/-! ## What the server decides -/

def received (up : Upstream) (name : Text) : Option Text := (acceptedHeaders up.headers).get name

/-- The headers whose values the kernel or the response constructor changes. -/
def kernelHeaders : List Text := ["set-cookie", "set-cookie2", "content-encoding", "Content-Length",
    "content-length", "transfer-encoding", "X-ZP-Set-Cookie",
    "X-ZP-Challenge-Compat", "X-ZP-Body-Stream", "X-ZP-Stream"]

variable {deps}

theorem values_acceptedHeaders (headers : List (Text × Text)) (name : Text) :
    (acceptedHeaders headers).values name =
      (headers.filter fun e => !isStreamMarker e.1).filterMap (added name) := by
  have hfold (headers : List (Text × Text)) (h : Headers) :
      (headers.foldl (fun h e => if isStreamMarker e.1 then h else h.append e.1 e.2) h).values
        name = h.values name ++
          (headers.filter fun e => !isStreamMarker e.1).filterMap (added name) := by
    induction headers generalizing h with
    | nil => simp
    | cons e headers ih =>
      rw [foldl_cons, ih]
      by_cases he : isStreamMarker e.1
      · rw [if_pos he, filter_cons_of_neg (by simpa using he)]
      · rw [if_neg he, filter_cons_of_pos (by simpa using he), values_append,
          append_assoc, filterMap_cons]
        cases added name e <;> rfl
  exact hfold headers .empty

variable {name finalUrl : Text}

theorem values_acceptedHeaders_filter {keep : Text × Text → Bool}
    (headers : List (Text × Text)) (hkeep : ∀ e, lower e.1 = lower name → keep e) :
    (acceptedHeaders (headers.filter keep)).values name = (acceptedHeaders headers).values name := by
  rw [values_acceptedHeaders, values_acceptedHeaders]
  induction headers with
  | nil => rfl
  | cons e headers ih =>
    by_cases he : keep e
    · rw [filter_cons_of_pos he]
      by_cases hmark : isStreamMarker e.1
      · rw [filter_cons_of_neg (by simpa using hmark), ih,
          filter_cons_of_neg (by simpa using hmark)]
      · rw [filter_cons_of_pos (by simpa using hmark), filterMap_cons, ih,
          filter_cons_of_pos (by simpa using hmark), filterMap_cons]
    have hnone : added name e = none := by
      rw [added, beq_false_of_ne fun hname => he (hkeep e hname), Bool.and_false,
        if_neg Bool.false_ne_true]
    rw [filter_cons_of_neg he, ih]
    by_cases hmark : isStreamMarker e.1
    · rw [filter_cons_of_neg (by simpa using hmark)]
    · rw [filter_cons_of_pos (by simpa using hmark), filterMap_cons, hnone]

theorem values_acceptedHeaders_concat (headers : List (Text × Text))
    {e : Text × Text} (hne : lower name ≠ lower e.1) :
    (acceptedHeaders (headers ++ [e])).values name = (acceptedHeaders headers).values name := by
  rw [acceptedHeaders, foldl_append, foldl_cons, foldl_nil, acceptedHeaders]
  split
  · rfl
  · rw [values_append_of_ne hne]

variable {armed : Bool} {headers : List (Text × Text)}

theorem values_buildResponseHeaders (hname : ∀ n ∈ kernelHeaders, lower name ≠ lower n) :
    (buildResponseHeaders deps headers finalUrl armed).values name =
      (acceptedHeaders headers).values name := by
  have hne : lower name ≠ lower "X-ZP-Set-Cookie" ∧ lower name ≠ lower "X-ZP-Challenge-Compat" :=
    ⟨hname _ (by decide), hname _ (by decide)⟩
  rw [buildResponseHeaders]
  split
  · rw [values_append_of_ne hne.2]
    split
    · rfl
    · rw [values_append_of_ne hne.1]
  · split
    · rfl
    · rw [values_append_of_ne hne.1]

theorem values_withoutCoding (hname : ∀ n ∈ kernelHeaders, lower name ≠ lower n) :
    (acceptedHeaders (withoutCoding headers)).values name =
      (acceptedHeaders headers).values name := by
  refine values_acceptedHeaders_filter headers fun e he => ?_
  have hci {n : Text} (hn : n ∈ kernelHeaders) : eqCI e.1 n = false :=
    beq_false_of_ne fun h => hname n hn (he.symm.trans h)
  rw [hci (by decide), hci (by decide), hci (by decide)]
  rfl

variable {up : Upstream}

theorem finishResponse_cases {f : Finished} (h : finishResponse deps up = some f) :
    (nullBody up ∧ ∃ body, f = .buffered up.status up.reason up.headers body true) ∨
      (nullBody up = false ∧ ∃ body length, f = .buffered up.status up.reason
        (withoutCoding up.headers ++ [("Content-Length".toList, length)]) body false) ∨
      (nullBody up = false ∧
        ∃ stream, f = .streaming up.status up.reason (withoutCoding up.headers) stream) := by
  rw [finishResponse] at h
  split at h
  · obtain ⟨body, -, h⟩ := bind_eq_some_iff.1 h
    split at h
    · cases h
    · split at h
      case isTrue hnull => exact .inl ⟨hnull, body, (some.inj h).symm⟩
      case isFalse hnull =>
        obtain ⟨decoded, -, h⟩ := bind_eq_some_iff.1 h
        exact .inr (.inl ⟨Bool.eq_false_iff.2 hnull, decoded, _, (some.inj h).symm⟩)
  rename_i hstream
  have hnull : nullBody up = false := by
    rw [Bool.or_eq_true, Bool.or_eq_true, not_or, not_or] at hstream
    exact Bool.eq_false_iff.2 hstream.1.1
  split at h
  · exact .inr (.inr ⟨hnull, up.body, (some.inj h).symm⟩)
  · obtain ⟨stream, -, h⟩ := bind_eq_some_iff.1 h
    exact .inr (.inr ⟨hnull, stream, (some.inj h).symm⟩)

theorem ne_forbidden (hname : ∀ n ∈ kernelHeaders, lower name ≠ lower n) :
    ∀ n ∈ forbiddenResponseHeaders, lower name ≠ lower n := fun n hn => by
  refine hname n ?_
  rw [forbiddenResponseHeaders, mem_cons, mem_singleton] at hn
  rcases hn with rfl | rfl <;> decide

theorem kernelResponse_spec {r : Response} (h : kernelResponse deps finalUrl armed up = some r) :
    r.status = up.status ∧
      (if nullBody up then r.body = .null else ∃ s, r.body = .network s .fresh) ∧
      Constructible r.status r.statusText r.body ∧
      ∀ name, (∀ n ∈ kernelHeaders, lower name ≠ lower n) →
        r.headers.values name = (acceptedHeaders up.headers).values name := by
  obtain ⟨f, hf, hr⟩ := bind_eq_some_iff.1 h
  rcases finishResponse_cases hf with ⟨hnull, body, rfl⟩ | ⟨hnull, body, length, rfl⟩ |
    ⟨hnull, stream, rfl⟩
  · obtain ⟨hstatus, hbody, hc, hvalues⟩ := newResponse_spec hr
    refine ⟨hstatus, by rwa [hnull], hc, fun name hname => ?_⟩
    rw [hvalues name (ne_forbidden hname), values_buildResponseHeaders hname]
  · obtain ⟨hstatus, hbody, hc, hvalues⟩ := newResponse_spec hr
    refine ⟨hstatus, by rw [hnull]; exact ⟨_, hbody⟩, hc, fun name hname => ?_⟩
    have hlength : lower name ≠ lower "Content-Length" := hname _ (by decide)
    rw [hvalues name (ne_forbidden hname), values_buildResponseHeaders hname,
      values_acceptedHeaders_concat _ hlength, values_withoutCoding hname]
  obtain ⟨hstatus, hbody, hc, hvalues⟩ := newResponse_spec hr
  have hst : isNullBodyStatus up.status = false := by
    rw [nullBody, Bool.or_eq_false_iff] at hnull
    exact hnull.2
  refine ⟨hstatus, by rw [hnull]; exact ⟨stream, by rw [hbody, hst]; rfl⟩, hc, fun name hname => ?_⟩
  have hne : lower name ≠ lower "X-ZP-Stream" ∧ lower name ≠ lower "X-ZP-Body-Stream" :=
    ⟨hname _ (by decide), hname _ (by decide)⟩
  have hbuilt := @values_buildResponseHeaders deps name finalUrl armed (withoutCoding up.headers)
    hname
  rw [hvalues name (ne_forbidden hname), ← values_withoutCoding hname, ← hbuilt]
  split
  · rw [values_set_of_ne hne.1, values_set_of_ne hne.2]
  · rw [values_set_of_ne hne.2]

/-! ## Headers of one name -/

/-- The headers of a name, in order. -/
def named (headers : List (Text × Text)) (name : Text) : List (Text × Text) :=
  headers.filter fun e => eqCI e.1 name

variable {hs hs' : List (Text × Text)}

theorem header_congr (h : named hs name = named hs' name) : header hs name = header hs' name := by
  rw [header, header, ← head?_filter, ← head?_filter, ← named, h, named]

theorem values_acceptedHeaders_named (headers : List (Text × Text)) (name : Text) :
    (acceptedHeaders (named headers name)).values name = (acceptedHeaders headers).values name :=
  values_acceptedHeaders_filter headers fun _ he => beq_iff_eq.2 he

theorem values_acceptedHeaders_congr (h : named hs name = named hs' name) :
    (acceptedHeaders hs).values name = (acceptedHeaders hs').values name := by
  rw [← values_acceptedHeaders_named, h, values_acceptedHeaders_named]

def transferHeaders : List Text := ["content-encoding", "content-length", "transfer-encoding"]

theorem named_withoutCoding (headers : List (Text × Text))
    (hname : ∀ n ∈ transferHeaders, lower name ≠ lower n) :
    named (withoutCoding headers) name = named headers name := by
  rw [named, withoutCoding, List.filter_filter, named]
  refine filter_congr fun e _ => ?_
  by_cases he : eqCI e.1 name
  · have hci {n : Text} (hn : n ∈ transferHeaders) : eqCI e.1 n = false :=
      beq_false_of_ne fun h => hname n hn ((beq_iff_eq.1 he).symm.trans h)
    rw [he, hci (n := "content-encoding") (by decide), hci (by decide), hci (by decide)]
    rfl
  · rw [Bool.eq_false_iff.2 he, Bool.false_and]

theorem named_concat (headers : List (Text × Text)) {e : Text × Text}
    (he : lower name ≠ lower e.1) : named (headers ++ [e]) name = named headers name := by
  have hnil : [e].filter (fun e => eqCI e.1 name) = [] := by
    rw [filter_eq_nil_iff]
    intro e' he' hci
    rw [mem_singleton.1 he'] at hci
    exact he (beq_iff_eq.1 hci).symm
  rw [named, filter_append, hnil, append_nil, named]

/-- The markers of streaming, which the kernel sets after the others. -/
def streamMarkers : List Text := ["X-ZP-Body-Stream", "X-ZP-Stream"]

theorem exists_buildResponseHeaders {r : Response}
    (h : kernelResponse deps finalUrl armed up = some r) :
    ∃ hs, (∀ name, (∀ n ∈ transferHeaders, lower name ≠ lower n) →
        named hs name = named up.headers name) ∧
      ∀ name, (∀ n ∈ forbiddenResponseHeaders ++ streamMarkers, lower name ≠ lower n) →
        r.headers.values name = (buildResponseHeaders deps hs finalUrl armed).values name := by
  have hforb {name : Text} (hname : ∀ n ∈ forbiddenResponseHeaders ++ streamMarkers,
      lower name ≠ lower n) : ∀ n ∈ forbiddenResponseHeaders, lower name ≠ lower n :=
    fun n hn => hname n (mem_append_left _ hn)
  obtain ⟨f, hf, hr⟩ := bind_eq_some_iff.1 h
  rcases finishResponse_cases hf with ⟨-, body, rfl⟩ | ⟨-, body, length, rfl⟩ | ⟨-, stream, rfl⟩
  · exact ⟨_, fun _ _ => rfl, fun name hname => (newResponse_spec hr).2.2.2 name (hforb hname)⟩
  · refine ⟨_, fun name hname => ?_, fun name hname => (newResponse_spec hr).2.2.2 name (hforb hname)⟩
    have hlength : lower name ≠ lower "Content-Length" := fun h =>
      hname "content-length" (by decide) (h.trans (by decide))
    rw [named_concat _ hlength, named_withoutCoding _ hname]
  refine ⟨_, fun name hname => named_withoutCoding _ hname, fun name hname => ?_⟩
  have hset (b : Bool) (h : Headers) :
      (if b then (h.set "X-ZP-Body-Stream" "1").set "X-ZP-Stream" "1"
        else h.set "X-ZP-Body-Stream" "1").values name = h.values name := by
    have h1 : lower name ≠ lower "X-ZP-Body-Stream" := hname _ (by decide)
    cases b
    · exact values_set_of_ne h1
    · exact (values_set_of_ne (hname _ (by decide))).trans (values_set_of_ne h1)
  rw [(newResponse_spec hr).2.2.2 name (hforb hname), hset]

/-! ## Content codings -/

/-- The content codings that are decoded. -/
inductive Coding
  | identity
  | gzip
  | deflate
  | br
  | zstd

open Coding

def Coding.of (name : Text) : Option Coding :=
  if name.isEmpty || name == "identity" then some .identity
  else if name == "gzip" || name == "x-gzip" then some .gzip
  else if name == "deflate" then some .deflate
  else if name == "br" then some .br
  else if name == "zstd" then some .zstd
  else none

/-- What bytes in a coding stand for, if they are in it. -/
structure Decoding where
  decode : Coding → Bytes → Option Bytes
  decode_identity : ∀ b, decode .identity b = some b

/-- What bytes stand for after codings that were applied in order. -/
def Decoding.all (m : Decoding) (names : List Text) (b : Bytes) : Option Bytes :=
  names.reverse.foldlM (fun b name => (of name).bind fun c => m.decode c b) b

/-- The decoders. -/
structure Codecs where
  /-- What a decoder of the buffered path gives for its input, and whether it fails after. -/
  reader : Coding → Bytes → Bytes × Bool
  /-- The stream out of a `DecompressionStream`, if it can be made. -/
  native : Coding → Stream → Option Stream

/-- Every decoder returns the decoded bytes or an error. -/
structure Codecs.Lawful (codecs : Codecs) (m : Decoding) : Prop where
  reader : ∀ c b out, codecs.reader c b = (out, false) → m.decode c b = some out
  native : ∀ c s out, codecs.native c s = some out → out.failed = false →
    s.failed = false ∧ m.decode c s.chunks.flatten = some out.chunks.flatten

/-- Why a response is not delivered. -/
inductive FinishError
  /-- The body fails. -/
  | upstream
  /-- `unexpected null response body`. -/
  | unexpectedNullBody
  /-- `buffered response exceeded cap`. -/
  | bufferedTooLong
  /-- `unsupported Content-Encoding`. -/
  | unsupportedEncoding (coding : Text)
  /-- A decoder fails. -/
  | decoder
  /-- `decoded response exceeded cap`. -/
  | decodedTooLong
  /-- The stream cannot be made. -/
  | stream
  deriving DecidableEq

/-! ## Buffering -/

/-- The loop that collects the body of a buffered response. -/
def collect (nullBody failed : Bool) (body : Bytes) : List Bytes → Except FinishError Bytes
  | [] => if failed then .error .upstream else .ok body
  | chunk :: chunks =>
    if nullBody && !chunk.isEmpty then .error .unexpectedNullBody
    else if maxDecodedBytes - body.length < chunk.length then .error .bufferedTooLong
    else collect nullBody failed (body ++ chunk) chunks

variable {body out : Bytes}

/-- `read_bounded`, of what a decoder gives. -/
def readBounded (out : Bytes × Bool) : Except FinishError Bytes :=
  if out.1.length ≤ maxDecodedBytes ∧ out.2 then .error .decoder
  else if maxDecodedBytes < (out.1.take (maxDecodedBytes + 1)).length then .error .decodedTooLong
  else .ok (out.1.take (maxDecodedBytes + 1))

variable (codecs : Codecs)

/-- One turn of the loop in `decode_body`. -/
def decodeStage (name : Text) (body : Bytes) : Except FinishError Bytes := match of name with
  | none => .error (.unsupportedEncoding name)
  | some .identity => .ok body
  | some c => readBounded (codecs.reader c body)

def codingNames (contentEncoding : Text) : List Text :=
  (split (· == ',') contentEncoding).map fun name => (rustTrim name).map Char.toLower

/-- The stages of `decode_body`, the outermost coding first. -/
def decodeFrom : List Text → Bytes → Except FinishError Bytes
  | [], body => .ok body
  | name :: names, body =>
    match decodeStage codecs name body with
    | .error e => .error e
    | .ok body => decodeFrom names body

def decodeBody (contentEncoding : Text) (body : Bytes) : Except FinishError Bytes :=
  decodeFrom codecs (codingNames contentEncoding).reverse body

variable {codecs}

variable {m : Decoding}

/-- The state of a stream of the page. -/
inductive StreamState
  | readable
  | closed
  | errored
  | cancelled
  deriving DecidableEq

open StreamState

/-- `readable_stream`: the chunks to come and the callback, as long as nobody took them, the
    chunks that were enqueued, and how often the callback ran. -/
structure Readable where
  source : Option Stream
  enqueued : List Bytes
  state : StreamState
  completions : Nat

/-- What a consumer asks of a stream. -/
inductive Demand
  | pull
  | cancel

namespace Readable

def new (s : Stream) : Readable := ⟨some s, [], .readable, 0⟩

/-- The `pull` and `cancel` of the underlying source; only a readable stream calls them. -/
def step (r : Readable) (demand : Demand) : Readable :=
  if r.state ≠ .readable then r
  else match demand with
  | .pull =>
    match r.source with
    | none => r
    | some ⟨chunk :: chunks, failed⟩ =>
      { r with source := some ⟨chunks, failed⟩, enqueued := r.enqueued ++ [chunk] }
    | some ⟨[], true⟩ => { r with source := none, state := .errored }
    | some ⟨[], false⟩ =>
      { r with source := none, completions := r.completions + 1, state := .closed }
  | .cancel => { r with source := none, state := .cancelled }

def after (s : Stream) (demands : List Demand) : Readable := demands.foldl step (new s)

/-- While it is readable, what was enqueued and what is to come make up the stream. The
    callback runs when the stream is closed, after all of it. -/
structure Inv (s : Stream) (r : Readable) : Prop where
  readable : r.state = .readable → r.completions = 0 ∧
    ∃ chunks, r.source = some ⟨chunks, s.failed⟩ ∧ s.chunks = r.enqueued ++ chunks
  closed : r.state = .closed → r.completions = 1 ∧ r.enqueued = s.chunks ∧ s.failed = false
  stopped : r.state = .errored ∨ r.state = .cancelled → r.completions = 0

variable {s : Stream} {r : Readable}

end Readable

open Readable

/-! ## The response -/

/-- The values of `Content-Encoding`. -/
def encodings (headers : List (Text × Text)) : List Text :=
  (headers.filter fun e => eqCI e.1 "content-encoding").map (·.2)

/-- The type of the response is run or applied by the page. -/
def executable (headers : List (Text × Text)) : Bool :=
  let type := (contentType headers).map Char.toLower
  Text.contains type "javascript" || Text.contains type "ecmascript" ||
    type == "text/css"

def isIdentity (coding : Text) : Bool := coding.isEmpty || coding == "identity"

/-- The codings that a stream of the browser can decode. -/
def isStreamable (coding : Text) : Bool :=
  isIdentity coding || coding == "gzip" || coding == "x-gzip" ||
    coding == "deflate"

variable (codecs) in
/-- `finish_response`, and how often it ran the callback. -/
def finish (status : Nat) (reason : Text) (headers : List (Text × Text)) (nullBody : Bool)
    (s : Stream) : Except FinishError Finished × Nat :=
  let nullBody := nullBody || isNullBodyStatus status
  let contentEncoding := ",".toList.intercalate (encodings headers)
  let coding := (rustTrim contentEncoding).map Char.toLower
  if nullBody || executable headers || !isStreamable coding then
    match collect nullBody s.failed [] s.chunks with
    | .error e => (.error e, 0)
    | .ok body =>
      if nullBody then (.ok (.buffered status reason headers body true), 1)
      else match decodeBody codecs contentEncoding body with
        | .error e => (.error e, 0)
        | .ok body =>
          let length := (toString body.length).toList
          (.ok (.buffered status reason
            (withoutCoding headers ++ [("Content-Length".toList, length)]) body false), 1)
  else if isIdentity coding then (.ok (.streaming status reason (withoutCoding headers) s), 0)
  else match (of coding).bind fun c => codecs.native c s with
    | none => (.error .stream, 0)
    | some out => (.ok (.streaming status reason (withoutCoding headers) out), 0)

/-! ## What is delivered -/

/-- Decoders for them; the one of the browser fails when its input does. -/
def mirror : Codecs where
  reader
    | .identity, b => (b, false)
    | _, b => (b.reverse, false)
  native
    | .identity, s => some s
    | _, s => some (if s.failed then ⟨[], true⟩ else ⟨[s.chunks.flatten.reverse], false⟩)

end ZeroProxy.Kernel
