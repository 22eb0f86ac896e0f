import ZeroProxy.Worker.Transport

/-!
# Navigations: from a response to a document

`transformDocumentResponse` passes the documents of a navigation through the HTML transformer,
piping streamed ones and buffering the others, and injects the prelude: after the first match of
`/<head[^>]*>/i`, or else, in a `head` of its own, after the first of `/<html[^>]*>/i`, or else at
the start of the document (`injectPrelude`).
-/

namespace ZeroProxy.Worker

open List Text Http Kernel Headers

/-- The text up to the end of the first match of `/p[^>]*>/i`, and the rest. -/
def splitAfterTag (p : Text) : Text → Option (Text × Text)
  | [] => none
  | c :: s =>
    let later := (splitAfterTag p s).map fun r => (c :: r.1, r.2)
    if startsWithCI (c :: s) p then
      let rest := (c :: s).drop p.length
      match rest.dropWhile (· != '>') with
      | [] => later
      | gt :: after => some ((c :: s).take p.length ++ rest.takeWhile (· != '>') ++ [gt], after)
    else later

/-- `injectPrelude`. -/
def injectPrelude (html prelude : Text) : Text := match splitAfterTag "<head" html with
  | some (before, after) => before ++ prelude ++ after
  | none =>
    match splitAfterTag "<html" html with
    | some (before, after) =>
      before ++ "<head>" ++ prelude ++ "</head>" ++ after
    | none => prelude ++ html

/-- The transformer bundle, and the functions of the browser that the worker decodes with. -/
structure Transformer where
  /-- The bundle loads. -/
  ready : Bool
  /-- `transformHtml`, given the document and its URL; `none` when it throws. -/
  transformHtml : Text → Text → Option Text
  /-- The states of an `HtmlTxn`. -/
  Txn : Type
  /-- The bundle has `HtmlTxn`. -/
  hasTxn : Bool
  /-- `new HtmlTxn`, given the URL and the prelude. -/
  newTxn : Text → Text → Option Txn
  write : Txn → Bytes → Option (Txn × Bytes)
  finish : Txn → Option Bytes
  /-- `buildRuntimePrelude`, given the target's policy. -/
  prelude : Option Text → Text
  /-- `extractCharsetFromContentType` and `extractCharsetFromHTMLBytes`. -/
  headerCharset : Text → Text
  metaCharset : Bytes → Text
  /-- `new TextDecoder(label).decode`; `none` when there is no such decoder. -/
  decodeAs : Text → Bytes → Option Text
  decodeUtf8 : Bytes → Text
  rewriteMetaCharsetToUtf8 : Text → Text
  /-- Two URLs parse and have different hosts. -/
  hostMismatch : Text → Text → Bool
  /-- The style sheet links of a document repointed from the host of a URL to that of another. -/
  repointLinks : Text → Text → Text → Text

variable (env : Env) (t : Transformer)

/-! ## Decoding -/

/-- `isUtf8CharsetLabel`. -/
def isUtf8CharsetLabel (label : Text) : Bool :=
  label.isEmpty || ["utf-8".toList, "utf8", "unicode-1-1-utf-8"].contains
    (jsLower (jsTrim label))

/-- `decodeTextBytes` of a document: its text, and whether it was not UTF-8. -/
def decodeTextBytes (bytes : Bytes) (contentType : Text) : Text × Bool :=
  let header := t.headerCharset contentType
  let charset := if header.isEmpty then t.metaCharset bytes else header
  if isUtf8CharsetLabel charset then (t.decodeUtf8 bytes, false)
  else match t.decodeAs (jsLower (jsTrim charset)) bytes with
    | some text => (text, true)
    | none => (t.decodeUtf8 bytes, false)

def documentText (bytes : Bytes) (contentType : Text) : Text :=
  match decodeTextBytes t bytes contentType with
  | (text, true) => t.rewriteMetaCharsetToUtf8 text
  | (text, false) => text

/-! ## Streaming -/

/-- The output of a transaction on the chunks of a stream: every write and the end may add a
    chunk, and an exception ends the output with a failure. -/
def pipe (txn : t.Txn) (failed : Bool) : List Bytes → Stream
  | [] =>
    if failed then ⟨[], true⟩
    else match t.finish txn with
      | none => ⟨[], true⟩
      | some tail => ⟨if tail.isEmpty then [] else [tail], false⟩
  | chunk :: chunks =>
    match t.write txn chunk with
    | none => ⟨[], true⟩
    | some (txn, out) =>
      let rest := pipe txn failed chunks
      ⟨if out.isEmpty then rest.chunks else out :: rest.chunks, rest.failed⟩

/-- `streamDocumentResponse` on a stream: the outer `none` is an exception, the inner one
    the `null` it returns when there is no transaction. -/
def streamDocumentResponse (r : Response) (targetUrl : Text) (stream : Stream) :
    Option (Option Response) :=
  match t.newTxn targetUrl (t.prelude (r.headers.get "Content-Security-Policy")) with
  | none => some none
  | some txn =>
    let h := ((r.headers.delete "Content-Length").delete "X-ZP-Stream").set
      "Content-Type" "text/html; charset=utf-8"
    (newResponse r.status r.statusText (applyZPSecurityHeaders env h none targetUrl)
      (.piped (pipe t txn stream.failed stream.chunks))).map some

/-- What the attempt to stream a document ends with: a response, or the way to buffer it,
    with the bytes when they were all read and whether a reader still holds the body. -/
inductive Attempt
  | streamed (r : Response)
  | buffer (prefetched : Option Bytes) (locked : Bool)

/-- The attempt to stream the bytes of a body that a reader holds. -/
def replay (r : Response) (targetUrl : Text) (stream : Stream) : Attempt :=
  if stream.chunks.isEmpty && stream.failed then .buffer none true
  else
    let charset := t.metaCharset (stream.chunks.headD [])
    if !isUtf8CharsetLabel charset then .buffer stream.readAll true
    else match streamDocumentResponse env t r targetUrl stream with
      | some (some out) => .streamed out
      | some none => .buffer stream.readAll true
      | none => .buffer none true

/-- The streaming branch of `transformDocumentResponse`. -/
def attemptStream (r : Response) (targetUrl : Text) : Attempt :=
  let charset := t.headerCharset ((r.headers.get "Content-Type").getD [])
  let finalUrl := (r.headers.get "X-ZP-Final-URL").getD []
  match r.body with
  | .network stream .fresh =>
    if r.headers.get "X-ZP-Stream" == some "1".toList && isUtf8CharsetLabel charset &&
        t.ready && t.hasTxn &&
        !(!finalUrl.isEmpty && !targetUrl.isEmpty && t.hostMismatch targetUrl finalUrl) then
      if charset.isEmpty then replay env t r targetUrl stream
      else match streamDocumentResponse env t r targetUrl stream with
        | some (some out) => .streamed out
        | some none => .buffer none false
        | none => .buffer none true
    else .buffer none false
  | _ => .buffer none false

/-! ## Buffering -/

/-- The transformed document; `none` when the transformer is missing, throws, or has no
    output for a document that is not empty. -/
def transformText (html targetUrl finalUrl : Text) : Option Text :=
  if !t.ready then none
  else match t.transformHtml html targetUrl with
    | none => none
    | some out =>
      if out.isEmpty && !html.isEmpty then none
      else some (if finalUrl.isEmpty then out else t.repointLinks targetUrl finalUrl out)

def bufferedBytes (r : Response) (prefetched : Option Bytes) (locked : Bool) : Option Bytes :=
  match prefetched with
  | some bytes => some bytes
  | none => if locked then none else r.body.readAll

/-- The buffered branch of `transformDocumentResponse`; `none` when it throws. -/
def bufferDocument (r : Response) (targetUrl : Text) (prefetched : Option Bytes)
    (locked : Bool) : Option Response :=
  match bufferedBytes r prefetched locked with
  | none => some { r with body := if locked then r.body.lock else r.body.disturb }
  | some bytes =>
    let html := documentText t bytes ((r.headers.get "Content-Type").getD [])
    match transformText t html targetUrl ((r.headers.get "X-ZP-Final-URL").getD []) with
    | none => some (safeError env "MALFORMED_HTML" 502 targetUrl)
    | some out =>
      let prelude := t.prelude (r.headers.get "Content-Security-Policy")
      newResponse r.status r.statusText
        ((r.headers.delete "Content-Length").set "Content-Type" "text/html; charset=utf-8")
        (.text (injectPrelude out prelude))

/-- `transformDocumentResponse`; `none` when it throws. -/
def transformDocumentResponse (r : Response) (targetUrl : Text) : Option Response :=
  if !isHTMLResponse r.headers then some r
  else if 300 ≤ r.status ∧ r.status < 400 then some r
  else if r.headers.get "X-ZP-Error" = some "1".toList then some r
  else match attemptStream env t r targetUrl with
    | .streamed out => some out
    | .buffer prefetched locked => bufferDocument env t r targetUrl prefetched locked

/-! ## Answers -/

/-- `completeBodyResponse`, which attaches the lifetime of a streamed body; `none` when it
    throws. -/
def completeBodyResponse (r : Response) : Option Response :=
  if r.headers.get "X-ZP-Body-Stream" ≠ some "1".toList then some r
  else
    let h := (r.headers.delete "X-ZP-Body-Stream").delete "X-ZP-Stream"
    match r.body with
    | .network _ .locked => none
    | .network _ .disturbed => newResponse r.status r.statusText h .failed
    | body => newResponse r.status r.statusText h body

def answer (r : Option Response) : Served :=
  match r.bind completeBodyResponse with
  | none => .networkError
  | some r => respondWith r

/-- A form that a document route waits for. -/
inductive Submission
  | expired
  /-- It belongs to another route, tab or entry. -/
  | foreign
  | pending (targetUrl : Text) (body : RequestBody)

/-- What a document route stands for. -/
inductive Route
  | unknown
  | entry (targetUrl : Text) (body : RequestBody)
  | submitted (targetUrl : Text) (submission : Submission)

def submittedDocument (req : Option Request) (targetUrl : Text) : Submission → Fetched
  | .expired => .own (.response (safeError env "SUBMISSION_EXPIRED" 410 targetUrl))
  | .foreign => .own (.response (safeError env "POLICY_BLOCKED" 403 targetUrl))
  | .pending submitUrl body => transportFetch env req body submitUrl

def fetchDocument (req : Option Request) : Route → Fetched
  | .unknown => .own .networkError
  | .entry targetUrl body => transportFetch env req body targetUrl
  | .submitted targetUrl submission => submittedDocument env req targetUrl submission

/-- The answer that is made of what was fetched. -/
def serveDocument : Fetched → Served
  | .own .networkError => .networkError
  | .own (.response r) => answer (transformDocumentResponse env t r [])
  | .upstream _ r u => answer (transformDocumentResponse env t r u)

/-- `proxyDocument`; a route that is not known is answered with the launcher page. -/
def proxyDocument (launcher : Served) (req : Option Request) (route : Route) : Served :=
  match route with
  | .unknown => launcher
  | route => serveDocument env t (fetchDocument env req route)

/-! ## What a browser runs -/

/-- The combined `Content-Type` of a scriptable document. -/
def ScriptableType (contentType : Option Text) : Prop :=
  ∃ m, extractType (contentType.getD []) = some m ∧ m.isScriptable

/-- A browser parses the body as a document that runs scripts: by its type, and by its
    status, which is no redirection to elsewhere. -/
def Scriptable (r : Response) : Prop :=
  ScriptableType (r.headers.get "Content-Type") ∧ r.body ≠ .null ∧
    ([301, 302, 303, 307, 308].contains r.status → r.headers.get "Location" = none)

/-- The body is the document `r`, transformed and with the prelude injected, or nothing. -/
inductive Transformed (r : Response) (targetUrl : Text) : Body → Prop
  | buffered {bytes : Bytes} {contentType finalUrl out : Text} {policy : Option Text} :
    r.body.readAll = some bytes →
    transformText t (documentText t bytes contentType) targetUrl finalUrl = some out →
    Transformed r targetUrl (.text (injectPrelude out (t.prelude policy)))
  | streamed {stream : Stream} {txn : t.Txn} {policy : Option Text} :
    r.body = .network stream .fresh → t.newTxn targetUrl (t.prelude policy) = some txn →
    Transformed r targetUrl (.piped (pipe t txn stream.failed stream.chunks))
  | failed : Transformed r targetUrl .failed

/-- When a server's answer is delivered, a scriptable document that the browser gets is the
    proxy's own error page, or what the transformer and the injection made of the answer. -/
def Guarded (launcher : Served) (req : Option Request) (route : Route) : Prop :=
  ∀ up r₀ u, fetchDocument env req route = .upstream up r₀ u →
    ∀ r, proxyDocument env t launcher req route = .response r → Scriptable r →
      (∃ code status targetUrl, r = safeError env code status targetUrl) ∨ Transformed t r₀ u r.body

/-- The server's answer is a scriptable document. -/
def ScriptableAnswer (up : Upstream) : Prop :=
  ScriptableType (received up "Content-Type") ∧ nullBody up = false

/-- `transformDocumentResponse` returns the response as it is. -/
def Passes (r : Response) : Prop :=
  isHTMLResponse r.headers = false ∨ (300 ≤ r.status ∧ r.status < 400) ∨
    r.headers.get "X-ZP-Error" = some "1".toList

variable {env t}

variable {r out : Response}

theorem transformDocumentResponse_of_passes (targetUrl : Text) (h : Passes r) :
    transformDocumentResponse env t r targetUrl = some r := by
  rw [transformDocumentResponse]
  split
  · rfl
  rename_i hhtml
  split
  · rfl
  rename_i hstatus
  rcases h with h | h | h
  · rw [h] at hhtml
    exact absurd rfl hhtml
  · exact absurd h hstatus
  · rw [if_pos h]

variable {targetUrl u : Text}

theorem streamDocumentResponse_body {stream : Stream} (hbody : r.body = .network stream .fresh)
    (h : streamDocumentResponse env t r targetUrl stream = some (some out)) :
    Transformed t r targetUrl out.body := by
  rw [streamDocumentResponse] at h
  split at h
  · cases h
  · rename_i txn htxn
    obtain ⟨out', hout, heq⟩ := Option.map_eq_some_iff.1 h
    cases heq
    rw [(newResponse_spec hout).2.1]
    exact .streamed hbody htxn

/-- The attempt to stream gives a transformed document, or bytes that are the body's. -/
def Attempt.Sound (t : Transformer) (r : Response) (targetUrl : Text) : Attempt → Prop
  | .streamed out => Transformed t r targetUrl out.body
  | .buffer prefetched _ => ∀ bytes, prefetched = some bytes → r.body.readAll = some bytes

theorem replay_sound {stream : Stream} (hbody : r.body = .network stream .fresh) :
    (replay env t r targetUrl stream).Sound t r targetUrl := by
  have hread (bytes : Bytes) (h : stream.readAll = some bytes) : r.body.readAll = some bytes := by
    rw [hbody]
    exact h
  rw [replay]
  split
  · exact nofun
  dsimp only
  split
  · exact hread
  · split
    case h_1 out hout => exact streamDocumentResponse_body hbody hout
    case h_2 => exact hread
    case h_3 => exact nofun

theorem attemptStream_sound (r : Response) (targetUrl : Text) :
    (attemptStream env t r targetUrl).Sound t r targetUrl := by
  rw [attemptStream]
  split
  · rename_i stream hbody
    split
    · split
      · exact replay_sound hbody
      · split
        case h_1 out hout => exact streamDocumentResponse_body hbody hout
        case h_2 => exact nofun
        case h_3 => exact nofun
    · exact nofun
  · exact nofun

/-- A body that no byte of is left to the browser. -/
def Consumed (body : Body) : Prop :=
  body = .null ∨ ∃ s use, body = .network s use ∧ use ≠ .fresh

theorem bufferDocument_cases {prefetched : Option Bytes}
    {locked : Bool} (hbody : r.body = .null ∨ ∃ s, r.body = .network s .fresh)
    (hpre : ∀ bytes, prefetched = some bytes → r.body.readAll = some bytes)
    (h : bufferDocument env t r targetUrl prefetched locked = some out) :
    (∃ code status url, out = safeError env code status url) ∨
      Transformed t r targetUrl out.body ∨ Consumed out.body := by
  rw [bufferDocument] at h
  cases hbytes : bufferedBytes r prefetched locked with
  | none =>
    rw [hbytes] at h
    cases h
    refine .inr (.inr ?_)
    rcases hbody with hnull | ⟨s, hs⟩
    · rw [hnull]
      exact .inl (by cases locked <;> rfl)
    · rw [hs]
      cases locked with
      | true => exact .inr ⟨s, .locked, rfl, by decide⟩
      | false => exact .inr ⟨s, .disturbed, rfl, by decide⟩
  | some bytes =>
    have hread : r.body.readAll = some bytes := by
      cases prefetched with
      | some bytes' => exact hpre bytes hbytes
      | none =>
        cases locked with
        | true => cases hbytes
        | false => exact hbytes
    rw [hbytes] at h
    dsimp only at h
    split at h
    · exact .inl ⟨_, _, _, (Option.some.inj h).symm⟩
    · rename_i text htext
      refine .inr (.inl ?_)
      rw [(newResponse_spec h).2.1]
      exact .buffered hread htext

theorem transformDocumentResponse_of_not_passes
    (hbody : r.body = .null ∨ ∃ s, r.body = .network s .fresh) (hpass : ¬ Passes r)
    (h : transformDocumentResponse env t r targetUrl = some out) :
    (∃ code status url, out = safeError env code status url) ∨
      Transformed t r targetUrl out.body ∨ Consumed out.body := by
  rw [Passes, not_or, not_or, Bool.not_eq_false] at hpass
  obtain ⟨hhtml, hstatus, herror⟩ := hpass
  rw [transformDocumentResponse, hhtml, if_neg (by decide), if_neg hstatus, if_neg herror] at h
  have hsound := @attemptStream_sound env t r targetUrl
  split at h
  · rename_i out' hout
    cases h
    rw [hout] at hsound
    exact .inr (.inl hsound)
  · rename_i prefetched locked hout
    rw [hout] at hsound
    exact bufferDocument_cases hbody hsound h

/-- The headers that `completeBodyResponse` and the constructor remove. -/
def internalHeaders : List Text := "X-ZP-Body-Stream" :: "X-ZP-Stream" :: forbiddenResponseHeaders

theorem answer_cases {r' : Response} (h : answer (some r) = .response r') :
    r'.body = .failed ∨ r'.body = r.body ∧ (∀ s use, r.body = .network s use → use = .fresh) ∧
      ∀ name, (∀ n ∈ internalHeaders, lower name ≠ lower n) →
        r'.headers.values name = r.headers.values name := by
  rw [answer, Option.bind_some, completeBodyResponse] at h
  split at h
  · cases h
  rename_i r₁ hr₁
  obtain ⟨rfl, hfresh⟩ := respondWith_spec h
  split at hr₁
  · cases hr₁
    exact .inr ⟨rfl, hfresh, fun _ _ => rfl⟩
  split at hr₁
  · cases hr₁
  · exact .inl (newResponse_spec hr₁).2.1
  · obtain ⟨-, hbody, -, hvalues⟩ := newResponse_spec hr₁
    refine .inr ⟨hbody, fun s use hs => hfresh s use (hbody.trans hs), fun name hname => ?_⟩
    rw [hvalues name fun n hn => hname n (.tail _ (.tail _ hn)),
      values_delete_of_ne (hname _ (.tail _ (.head _))), values_delete_of_ne (hname _ (.head _))]

theorem values_answer {r' : Response} (h : answer (some r) = .response r') {name : Text}
    (hname : ∀ n ∈ internalHeaders, lower name ≠ lower n) :
    r'.headers.values name = r.headers.values name := by
  have hdeleted : ((r.headers.delete "X-ZP-Body-Stream").delete "X-ZP-Stream").values name =
      r.headers.values name := by
    rw [values_delete_of_ne (hname _ (.tail _ (.head _))), values_delete_of_ne (hname _ (.head _))]
  have hforbidden : ∀ n ∈ forbiddenResponseHeaders, lower name ≠ lower n :=
    fun n hn => hname n (.tail _ (.tail _ hn))
  rw [answer, Option.bind_some, completeBodyResponse] at h
  split at h
  · cases h
  rename_i r₁ hr₁
  obtain ⟨rfl, -⟩ := respondWith_spec h
  split at hr₁
  · cases hr₁
    rfl
  split at hr₁
  · cases hr₁
  · rw [(newResponse_spec hr₁).2.2.2 name hforbidden, hdeleted]
  · rw [(newResponse_spec hr₁).2.2.2 name hforbidden, hdeleted]

/-! ## The headers of a document -/

/-- The document is streamed. Its headers then pass `applyZPSecurityHeaders` a second time. -/
def Streams (env : Env) (t : Transformer) (r : Response) (targetUrl : Text) : Prop :=
  ¬ Passes r ∧ ∃ out, attemptStream env t r targetUrl = .streamed out

/-- The transformer fails, and an error page of the proxy's own takes the document's place. -/
def Malformed (env : Env) (t : Transformer) (r : Response) (targetUrl : Text) : Prop :=
  transformDocumentResponse env t r targetUrl = some (safeError env "MALFORMED_HTML" 502 targetUrl)

/-- The headers that the way from a response to a document changes in every case. -/
def transformedHeaders : List Text := "Content-Length" :: "Content-Type" :: internalHeaders

/-- The headers of a served document, but for those: of an error page of the proxy's own, or those
    of the response, or those that a second pass makes of them. -/
inductive Headed (env : Env) (t : Transformer) (r : Response) (targetUrl : Text)
    (out : Headers) : Prop
  | own : (∀ name, (∀ n ∈ transformedHeaders, lower name ≠ lower n) →
      out.values name = (safeError env "MALFORMED_HTML" 502 targetUrl).headers.values name) →
    Malformed env t r targetUrl → Headed env t r targetUrl out
  | once : (∀ name, (∀ n ∈ transformedHeaders, lower name ≠ lower n) →
      out.values name = r.headers.values name) →
    ¬ Streams env t r targetUrl → Headed env t r targetUrl out
  | twice (h : Headers) : (∀ name, (∀ n ∈ transformedHeaders, lower name ≠ lower n) →
      h.values name = r.headers.values name) →
    (∀ name, (∀ n ∈ transformedHeaders, lower name ≠ lower n) →
      out.values name = (applyZPSecurityHeaders env h none targetUrl).values name) →
    Streams env t r targetUrl → Headed env t r targetUrl out

theorem ne_of_transformedHeaders {name : Text}
    (hname : ∀ n ∈ transformedHeaders, lower name ≠ lower n) :
    lower name ≠ lower "Content-Length" ∧ lower name ≠ lower "Content-Type" ∧
      lower name ≠ lower "X-ZP-Stream" ∧ ∀ n ∈ forbiddenResponseHeaders, lower name ≠ lower n :=
  ⟨hname _ (.head _), hname _ (.tail _ (.head _)), hname _ (by decide), fun n hn =>
    hname n (.tail _ (.tail _ (.tail _ (.tail _ hn))))⟩

theorem values_streamDocumentResponse {stream : Stream}
    (h : streamDocumentResponse env t r targetUrl stream = some (some out)) :
    ∃ h', (∀ name, (∀ n ∈ transformedHeaders, lower name ≠ lower n) →
        h'.values name = r.headers.values name) ∧
      ∀ name, (∀ n ∈ transformedHeaders, lower name ≠ lower n) →
        out.headers.values name = (applyZPSecurityHeaders env h' none targetUrl).values name := by
  rw [streamDocumentResponse] at h
  split at h
  · cases h
  obtain ⟨out', hout, heq⟩ := Option.map_eq_some_iff.1 h
  cases heq
  refine ⟨((r.headers.delete "Content-Length").delete "X-ZP-Stream").set "Content-Type"
    "text/html; charset=utf-8", fun name hname => ?_, fun name hname => ?_⟩
  · obtain ⟨hlength, htype, hstream, -⟩ := ne_of_transformedHeaders hname
    rw [values_set_of_ne htype, values_delete_of_ne hstream, values_delete_of_ne hlength]
  · exact (newResponse_spec hout).2.2.2 name (ne_of_transformedHeaders hname).2.2.2

theorem exists_of_attemptStream (h : attemptStream env t r targetUrl = .streamed out) :
    ∃ stream, streamDocumentResponse env t r targetUrl stream = some (some out) := by
  rw [attemptStream] at h
  split at h
  · split at h
    · split at h
      · rw [replay] at h
        split at h
        · cases h
        dsimp only at h
        split at h
        · cases h
        split at h
        case h_1 out' hout => exact ⟨_, Attempt.streamed.inj h ▸ hout⟩
        case h_2 => cases h
        case h_3 => cases h
      · split at h
        case h_1 out' hout => exact ⟨_, Attempt.streamed.inj h ▸ hout⟩
        case h_2 => cases h
        case h_3 => cases h
    · cases h
  · cases h

theorem headed_transformDocumentResponse
    (h : transformDocumentResponse env t r targetUrl = some out) :
    Headed env t r targetUrl out.headers := by
  by_cases hpass : Passes r
  · rw [transformDocumentResponse_of_passes targetUrl hpass] at h
    cases h
    exact .once (fun _ _ => rfl) fun hs => hs.1 hpass
  have hpass' := hpass
  have hout := h
  rw [Passes, not_or, not_or, Bool.not_eq_false] at hpass
  obtain ⟨hhtml, hstatus, herror⟩ := hpass
  rw [transformDocumentResponse, hhtml, if_neg (by decide), if_neg hstatus, if_neg herror] at h
  cases hattempt : attemptStream env t r targetUrl with
  | streamed out' =>
    rw [hattempt] at h
    cases h
    obtain ⟨stream, hstream⟩ := exists_of_attemptStream hattempt
    obtain ⟨h', hkept, hvalues⟩ := values_streamDocumentResponse hstream
    exact .twice h' hkept hvalues ⟨hpass', _, hattempt⟩
  | buffer prefetched locked =>
    have hno : ¬ Streams env t r targetUrl := by
      rintro ⟨-, out', hstreamed⟩
      rw [hattempt] at hstreamed
      cases hstreamed
    rw [hattempt] at h
    dsimp only at h
    rw [bufferDocument] at h
    split at h
    · cases h
      exact .once (fun _ _ => rfl) hno
    dsimp only at h
    split at h
    · cases h
      exact .own (fun _ _ => rfl) hout
    · refine .once (fun name hname => ?_) hno
      obtain ⟨hlength, htype, -, hforbidden⟩ := ne_of_transformedHeaders hname
      rw [(newResponse_spec h).2.2.2 name hforbidden, values_set_of_ne htype,
        values_delete_of_ne hlength]

theorem headed_answer {r' : Response}
    (h : answer (transformDocumentResponse env t r targetUrl) = .response r') :
    Headed env t r targetUrl r'.headers := by
  cases hout : transformDocumentResponse env t r targetUrl with
  | none =>
    rw [hout] at h
    cases h
  | some out =>
    rw [hout] at h
    have hvalues : ∀ name, (∀ n ∈ transformedHeaders, lower name ≠ lower n) →
        r'.headers.values name = out.headers.values name :=
      fun name hname => values_answer h fun n hn => hname n (.tail _ (.tail _ hn))
    cases headed_transformDocumentResponse hout with
    | own hown hmalformed =>
      exact .own (fun name hname => (hvalues name hname).trans (hown name hname)) hmalformed
    | once honce hno => exact .once (fun name hname => (hvalues name hname).trans (honce name hname)) hno
    | twice h' hkept hout' hs =>
      exact .twice h' hkept (fun name hname => (hvalues name hname).trans (hout' name hname)) hs

theorem answer_of_fresh {s : Stream} (hbody : r.body = .network s .fresh)
    (hc : Constructible r.status r.statusText r.body) :
    ∃ r', answer (some r) = .response r' ∧ r'.body = .network s .fresh := by
  have hrespond {r' : Response} (h : r'.body = .network s .fresh) : respondWith r' = .response r' := by
    rw [respondWith, h]
  rw [answer, Option.bind_some, completeBodyResponse]
  by_cases hmark : r.headers.get "X-ZP-Body-Stream" ≠ some "1".toList
  · rw [if_pos hmark]
    exact ⟨r, hrespond hbody, hbody⟩
  · rw [hbody] at hc
    rw [if_neg hmark, hbody]
    dsimp only
    rw [newResponse, if_pos hc]
    exact ⟨_, hrespond rfl, rfl⟩

/-! ## When navigations are guarded -/

variable {req : Option Request} {up : Upstream}

theorem Delivered.spec (h : Delivered env req up r u) : r.status = up.status ∧
      (if nullBody up then r.body = .null else ∃ s, r.body = .network s .fresh) ∧
      Constructible r.status r.statusText r.body ∧
      (r.headers.get "Content-Type" = received up "Content-Type") ∧
      (r.headers.get "X-ZP-Error" = received up "X-ZP-Error") ∧
      r.headers.values "Location" = [] := by
  obtain ⟨n, r₀, -, hr₀, -, rfl⟩ := h
  obtain ⟨hstatus, hbody, hc, hvalues⟩ := kernelResponse_spec hr₀
  have hget (name : Text) (hset : ∀ n ∈ securityHeaders, lower name ≠ lower n)
      (hstrip : ∀ n ∈ "X-ZP-Challenge-Compat".toList :: strippedHeaders, lower name ≠ lower n)
      (hkernel : ∀ n ∈ kernelHeaders, lower name ≠ lower n) :
      (addCSP env r₀ req u).headers.get name = received up name := by
    refine get_congr ?_
    rw [addCSP, values_applyZPSecurityHeaders hset, values_stripHeaders hstrip,
      hvalues name hkernel]
  exact ⟨hstatus, hbody, hc, hget _ (by decide) (by decide) (by decide),
    hget _ (by decide) (by decide) (by decide), values_location_applyZPSecurityHeaders _ _ _⟩

variable {launcher : Served} {route : Route}

theorem proxyDocument_of_upstream (h : fetchDocument env req route = .upstream up r u) :
    proxyDocument env t launcher req route = answer (transformDocumentResponse env t r u) := by
  cases route with
  | unknown => cases h
  | entry targetUrl body => rw [proxyDocument, h, serveDocument]; nofun
  | submitted targetUrl submission => rw [proxyDocument, h, serveDocument]; nofun

theorem scriptable_iff {r' : Response} (h : Delivered env req up r u) (hbody : r'.body = r.body)
    (hvalues : ∀ name, (∀ n ∈ internalHeaders, lower name ≠ lower n) →
      r'.headers.values name = r.headers.values name) :
    Scriptable r' ↔ ScriptableAnswer up := by
  obtain ⟨-, hb, -, htype, -, hloc⟩ := h.spec
  have hct : r'.headers.get "Content-Type" = received up "Content-Type" := by
    rw [get_congr (hvalues _ (by decide)), htype]
  have hnull : r'.body ≠ .null ↔ nullBody up = false := by
    rw [hbody]
    split at hb
    · rename_i hn
      rw [hb, hn]
      decide
    · rename_i hn
      obtain ⟨s, hs⟩ := hb
      rw [hs, Bool.eq_false_iff.2 hn]
      simp
  have hnone : r'.headers.get "Location" = none := get_eq_none (by rw [hvalues _ (by decide), hloc])
  rw [Scriptable, ScriptableAnswer, hct, hnull]
  exact ⟨fun h => ⟨h.1, h.2.1⟩, fun h => ⟨h.1, h.2, fun _ => hnone⟩⟩

/-- The server's answer is one that is transformed. -/
def Handled (up : Upstream) : Prop :=
  isHTMLType ((received up "Content-Type").getD []) ∧
    ¬ (300 ≤ up.status ∧ up.status < 400) ∧ received up "X-ZP-Error" ≠ some "1".toList

theorem passes_iff (h : Delivered env req up r u) : Passes r ↔ ¬ Handled up := by
  obtain ⟨hstatus, -, -, htype, herror, -⟩ := h.spec
  rw [Passes, Handled, isHTMLResponse, hstatus, htype, herror, not_and_or, not_and_or, not_not,
    not_not, Bool.not_eq_true]

theorem Delivered.of_fetchDocument (hf : fetchDocument env req route = .upstream up r u) :
    Delivered env req up r u := by
  cases route with
  | unknown => cases hf
  | entry targetUrl body => exact .of_transportFetch hf
  | submitted targetUrl submission =>
    cases submission with
    | pending submitUrl body => exact .of_transportFetch hf
    | expired | foreign => cases hf

theorem handled_of_guarded (h : Guarded env t launcher req route)
    (hf : fetchDocument env req route = .upstream up r u) (hscr : ScriptableAnswer up) :
    Handled up := by
  by_contra hcond
  have hd := Delivered.of_fetchDocument hf
  obtain ⟨-, hb, hc, -⟩ := hd.spec
  rw [hscr.2] at hb
  obtain ⟨s, hs⟩ := hb
  obtain ⟨r', hr', hbytes⟩ := answer_of_fresh hs hc
  have hserved : proxyDocument env t launcher req route = .response r' := by
    rw [proxyDocument_of_upstream hf, transformDocumentResponse_of_passes u ((passes_iff hd).2 hcond),
      hr']
  rcases answer_cases hr' with hfail | ⟨hbody, -, hvalues⟩
  · rw [hbytes] at hfail
    cases hfail
  · rcases h up r u hf r' hserved ((scriptable_iff hd hbody hvalues).2 hscr) with
      ⟨code, status, url, rfl⟩ | htrans
    · cases hbytes
    · rw [hbytes] at htrans
      cases htrans

theorem guarded_of_handled
    (h : ∀ up r u, fetchDocument env req route = .upstream up r u → ScriptableAnswer up →
      Handled up) : Guarded env t launcher req route := by
  intro up r u hf r' hserved hscr
  have hd := Delivered.of_fetchDocument hf
  rw [proxyDocument_of_upstream hf] at hserved
  by_cases hpass : Passes r
  · rw [transformDocumentResponse_of_passes u hpass] at hserved
    rcases answer_cases hserved with hfail | ⟨hbody, -, hvalues⟩
    · rw [hfail]
      exact .inr .failed
    · exact absurd (h up r u hf ((scriptable_iff hd hbody hvalues).1 hscr))
        ((passes_iff hd).1 hpass)
  cases hout : transformDocumentResponse env t r u with
  | none =>
    rw [hout] at hserved
    cases hserved
  | some out =>
    rw [hout] at hserved
    have hbody : r.body = .null ∨ ∃ s, r.body = .network s .fresh := by
      have := hd.spec.2.1
      split at this
      · exact .inl this
      · exact .inr this
    rcases transformDocumentResponse_of_not_passes hbody hpass hout with
      ⟨code, status, url, rfl⟩ | htrans | hgone
    · obtain rfl : safeError env code status url = r' := Served.response.inj hserved
      exact .inl ⟨code, status, url, rfl⟩
    · rcases answer_cases hserved with hfail | ⟨hbody, -⟩
      · rw [hfail]
        exact .inr .failed
      · rw [hbody]
        exact .inr htrans
    rcases answer_cases hserved with hfail | ⟨hbody, hfresh, -⟩
    · rw [hfail]
      exact .inr .failed
    · rcases hgone with hnull | ⟨s, use, hs, huse⟩
      · exact absurd (hbody.trans hnull) hscr.2.1
      · exact absurd (hfresh s use hs) huse

/-- Navigations are guarded exactly when every scriptable answer that is delivered has a type
    in which `isHTMLResponse` finds HTML or XHTML, a status outside 300 to 399, and no
    `X-ZP-Error: 1`. -/
theorem proxyDocument_guarded_iff (env : Env) (t : Transformer) (launcher : Served)
    (req : Option Request) (route : Route) :
    Guarded env t launcher req route ↔
      ∀ up r u, fetchDocument env req route = .upstream up r u → ScriptableAnswer up →
        Handled up :=
  ⟨fun h _ _ _ hf hscr => handled_of_guarded h hf hscr, guarded_of_handled⟩

/-! ## A forged error marker -/

/-- A world in which every URL is canonical and every request gets the same answer. -/
def singleServer (up : Upstream) : Env where
  kernel := ⟨fun _ b => some b, fun _ s => some s, fun _ _ => false⟩
  canonicalTargetURL := .ok
  resolveLocation := fun location _ => some location
  kernelReady := true
  network := fun _ _ => .ok up
  rejection := "TARGET_CONNECT_FAILED"
  challengeCompat := false
  missesHints := fun _ _ => false
  proxiedCSP := fun _ => "default-src 'self'"
  fixedCSP := "default-src 'self'"
  trustedTypesPolicies := fun _ => []
  proxiedRefreshValue := fun _ _ => []
  shownCode := id
  errorPage := fun code _ => code

/-- An answer that carries the marker of the proxy's own error pages. -/
def forgedAnswer : Upstream where
  status := 200
  reason := "OK"
  headers := [("Content-Type", "text/html"), ("X-ZP-Error", "1")]
  body := ⟨["<script>top.location</script>".toList.flatMap String.utf8EncodeChar], false⟩
  isHead := false

def idleTransformer : Transformer where
  ready := true
  transformHtml := fun html _ => some html
  Txn := Unit
  hasTxn := true
  newTxn := fun _ _ => some ()
  write := fun _ chunk => some ((), chunk)
  finish := fun _ => some []
  prelude := fun _ => "<script src=/zp/Asset/runtime-prelude.js></script>"
  headerCharset := fun _ => []
  metaCharset := fun _ => []
  decodeAs := fun _ bytes => some (bytes.map fun b => Char.ofNat b.toNat)
  decodeUtf8 := fun bytes => bytes.map fun b => Char.ofNat b.toNat
  rewriteMetaCharsetToUtf8 := id
  hostMismatch := fun _ _ => false
  repointLinks := fun _ _ html => html

/-- The document of the forged answer is passed through. -/
theorem forged_marker_not_guarded :
    ¬ Guarded (singleServer forgedAnswer) idleTransformer .networkError none
      (.entry "https://evil.test/" .accepted) := by
  intro h
  have hf : fetchDocument (singleServer forgedAnswer) none
      (.entry "https://evil.test/" .accepted) = .upstream forgedAnswer _ _ := rfl
  exact (handled_of_guarded h hf ⟨⟨_, rfl, by decide⟩, by decide⟩).2.2 (by decide)

end ZeroProxy.Worker
