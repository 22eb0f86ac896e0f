import Mathlib.Data.Char
import Mathlib.Data.List.Lex
import ZeroProxy.Worker.ResponseCookies
import ZeroProxy.Worker.Transport
import ZeroProxy.Kernel.RequestHeaders

/-!
# Requests of the worker

The request side of `transportFetchHop` (`sw.js`): every request that the worker sends for a
document, a `fetch` or `XMLHttpRequest`, or an element, with the preflights before it and the
redirects after it, and the list of headers that it hands to the kernel.
-/

namespace ZeroProxy.Worker.Fetch

open Text Http

/-- A text of one line: an identifier, a serialized origin or a serialized URL. -/
abbrev Line := {t : Text // '\n' ∉ t}

theorem newline_notMem {t : Text} (h : t.all (· != '\n')) : '\n' ∉ t :=
  fun hmem => absurd rfl (bne_iff_ne.1 (List.all_eq_true.1 h _ hmem))

def nullOrigin : Line := ⟨"null", by decide⟩

/-- What a request is for. -/
inductive Kind
  | document (inFrame : Bool)
  /-- `fetch` and `XMLHttpRequest`. -/
  | runtimeFetch
  /-- An element with `crossorigin`, a module script or a font. -/
  | elementCors
  | subresource
  deriving DecidableEq

/-- The mode of a request. -/
inductive Mode
  | navigate
  | sameOrigin
  | noCors
  | cors
  deriving DecidableEq

/-- The credentials mode: `omit`, `same-origin` or `include`. -/
inductive Credentials
  | omitted
  | sameOrigin
  | included
  deriving DecidableEq

/-- What is done with a redirect. -/
inductive RedirectMode
  | follow
  | error
  | manual

/-- The options of one hop. -/
structure Options where
  tabId : Line
  kind : Kind
  /-- `context.origin`. -/
  origin : Line
  /-- `context.documentUrl`. -/
  documentUrl : Line
  mode : Mode
  method : Text
  headers : Headers
  implicitHeaders : List Text
  credentials : Credentials
  redirect : RedirectMode
  initiatorOpaque : Bool
  tainted : Bool
  originTainted : Bool
  preflight : Bool
  criticalRestart : Bool

/-! ## The rules of CORS -/

/-- `corsSafelistedMethod`. -/
def corsSafelistedMethod (method : Text) : Bool :=
  method == "GET" || method == "HEAD" || method == "POST"

/-- The characters that `corsSafeHeaderValue` refuses. -/
def isUnsafeValueChar (c : Char) : Bool :=
  (decide (c.toNat < 0x20) && c != '\t') || "\"():<>?@[\\]\x7b\x7d\x7f".toList.contains c

/-- `corsSafeHeaderValue`. -/
def corsSafeHeaderValue (value : Text) : Bool :=
  decide (value.length ≤ 128) && !value.any isUnsafeValueChar

/-- The essence of a `Content-Type`, as far as its first semicolon. -/
def contentTypeEssence (value : Text) : Text := jsLower (jsTrim (value.takeWhile (· != ';')))

def formTypes : List Text :=
  ["application/x-www-form-urlencoded", "multipart/form-data", "text/plain"]

/-- `bytes=`, digits, a dash and possibly digits. -/
def isSimpleRange (value : Text) : Bool := match stripPrefix "bytes=" value with
  | none => false
  | some s =>
    !(s.takeWhile isAsciiDigit).isEmpty && match s.dropWhile isAsciiDigit with
      | '-' :: t => t.all isAsciiDigit
      | _ => false

/-- A header of a request, by its lower case name and combined value, needs no preflight. -/
def corsSafeHeader (name value : Text) : Bool :=
  if ["accept".toList, "accept-language", "content-language"].contains name then
    corsSafeHeaderValue value
  else if name == "content-type" then
    corsSafeHeaderValue value && formTypes.contains (contentTypeEssence value)
  else name == "range" && isSimpleRange value

/-- The names of a list, each of them once, in order. -/
def headerNames (h : Headers) : List Text :=
  (h.list.map (·.1)).dedup.insertionSort fun a b => decide (a ≤ b)

/-- `corsUnsafeHeaderNames`. -/
def corsUnsafeHeaderNames (h : Headers) (implicit : List Text) : List Text :=
  (headerNames h).filter fun name =>
    !implicit.contains name && !corsSafeHeader name ((h.get name).getD [])

/-- `corsTokenList`. -/
def corsTokenList (value : Option Text) : List Text :=
  match value with
  | none => []
  | some v => ((split (· == ',') v).map jsTrim).filter (!·.isEmpty)

/-- `corsCheck`. -/
def corsCheck (h : Headers) (requestOrigin : Text) (credentials : Bool) : Bool :=
  match h.get "access-control-allow-origin" with
  | none => false
  | some allowed =>
    (!credentials && allowed == "*") ||
      (allowed == requestOrigin &&
        (!credentials || h.get "access-control-allow-credentials" == some "true".toList))

/-- What a preflight allows, and until when. -/
structure Entry where
  methods : List Text
  headers : List Text
  expires : Int

/-- `corsPreflightAllows`. -/
def corsPreflightAllows (entry : Entry) (method : Text) (names : List Text) (credentials : Bool) :
    Bool :=
  let wildcard (list : List Text) := !credentials && list.contains "*"
  (corsSafelistedMethod method || wildcard entry.methods || entry.methods.contains method) &&
    names.all fun name => entry.headers.contains name || wildcard entry.headers

def preflightMaxAge (h : Headers) : Nat := match h.get "access-control-max-age" with
  | none => 5
  | some v =>
    let v := jsTrim v
    if !v.isEmpty && v.all isAsciiDigit then
      min (v.foldl (fun n c => 10 * n + (c.toNat - '0'.toNat)) 0) 7200
    else 5

def entryOf (h : Headers) (now : Int) : Entry where
  methods := corsTokenList (h.get "access-control-allow-methods")
  headers := (corsTokenList (h.get "access-control-allow-headers")).map jsLower
  expires := if preflightMaxAge h = 0 then 0 else now + preflightMaxAge h * 1000

/-! ## Requests and preflights -/

/-- A request that went to a server. -/
structure Sent where
  url : Line
  options : Options
  /-- The `Origin` header. -/
  origin : Option Line
  /-- The cookies of the `Cookie` header. -/
  cookies : List Cookie
  /-- The jar before the request. -/
  jar : CookieJar
  now : Int
  reply : Option Response

/-- A preflight that was answered and allowed a request. -/
structure Grant where
  tabId : Line
  origin : Line
  url : Line
  credentials : Bool
  request : Sent
  reply : Response
  preflight : request.options.preflight
  tabId_eq : request.options.tabId = tabId
  url_eq : request.url = url
  origin_eq : request.origin = some origin
  reply_eq : request.reply = some reply
  ok : 200 ≤ reply.status ∧ reply.status ≤ 299
  check : corsCheck reply.headers origin.1 credentials

def Grant.entry (g : Grant) : Entry := entryOf g.reply.headers g.request.now

/-- The key of the cache. -/
def preflightKey (tabId origin url : Line) (credentials : Bool) : Text :=
  "\n".toList.intercalate [tabId.1, origin.1, url.1, if credentials then "1" else "0"]

def Grant.key (g : Grant) : Text := preflightKey g.tabId g.origin g.url g.credentials

/-- The state that requests share. -/
structure State where
  jar : CookieJar
  /-- `corsPreflightCache`, the oldest entry first. -/
  cache : List Grant
  log : List Sent

/-- What other requests of the worker do while this one waits: they send requests, cache and
    evict preflights, and change the jar. -/
structure Interference where
  sent : List Sent
  grants : List Grant
  evicts : Text → Bool
  jar : CookieJar → CookieJar
  grants_sent : ∀ g ∈ grants, g.request ∈ sent

/-- The state after the others. -/
def Interference.apply (i : Interference) (st : State) : State where
  jar := i.jar st.jar
  cache := st.cache.filter (fun g => !i.evicts g.key) ++ i.grants
  log := st.log ++ i.sent

/-- The URL functions of the worker. A canonical URL is not empty, is its own canonical form,
    has no credentials and is an absolute address. -/
structure Urls where
  /-- `ZP.canonicalTargetURL(url).href`, with the code of its error. -/
  canonical : Text → Except Text Line
  /-- The origin of a URL. -/
  origin : Line → Line
  /-- `new URL(location, url)`: its address, and whether it carries a user name or a
      password. -/
  join : Text → Line → Option (Text × Bool)
  /-- The worker answers for the address by itself. -/
  stub : Line → Bool
  cookies : CookieEnv
  canonical_self : ∀ {t u}, canonical t = .ok u → canonical u.1 = .ok u
  canonical_ne_nil : ∀ {t u}, canonical t = .ok u → u.1 ≠ []
  join_canonical : ∀ {t u} (base : Line), canonical t = .ok u → join u.1 base = some (u.1, false)

/-- Everything that the worker does not control. The clock and the others are read at the
    length of the log. -/
structure World where
  ready : Nat → Bool
  network : Sent → List Sent → Option Response
  clock : Nat → Int
  others : Nat → Interference
  /-- `Critical-CH` names client hints that the request did not carry. -/
  missesHints : Line → Headers → Bool

variable (urls : Urls) (w : World)

/-! ## One request -/

/-- The mode is `cors`, for a `fetch` or an element. -/
def corsMode (o : Options) : Bool :=
  (o.kind == .runtimeFetch || o.kind == .elementCors) && o.mode == .cors

def corsRequest (o : Options) : Bool := corsMode o && !o.preflight

/-- `corsOrigin`. -/
def corsOrigin (o : Options) : Line := if o.originTainted then nullOrigin else o.origin

/-- The `Origin` header of a request. -/
def sentOrigin (u : Line) (o : Options) : Option Line :=
  if (o.method != "GET" && o.method != "HEAD") ||
      (corsMode o && (o.originTainted || o.kind == .elementCors || urls.origin u != o.origin)) then
    some (corsOrigin o)
  else none

def credentialsAllowed (u : Line) (o : Options) : Bool :=
  o.credentials == .included || (o.credentials == .sameOrigin && urls.origin u == o.origin)

/-- The jar after the cookies were read for a request, and the cookies. -/
def requestCookies (jar : CookieJar) (now : Int) (u : Line) (o : Options) :
    CookieJar × List Cookie :=
  if credentialsAllowed urls u o then
    cookiesForURL urls.cookies jar now u.1 ⟨true, o.initiatorOpaque⟩
  else (jar, [])

/-- A request is sent, and the cookies of its response are stored. -/
def send (st : State) (u : Line) (o : Options) : State × Sent :=
  let now := w.clock st.log.length
  let (jar, cookies) := requestCookies urls st.jar now u o
  let request : Sent := ⟨u, o, sentOrigin urls u o, cookies, st.jar, now, none⟩
  let sent := { request with reply := w.network request st.log }
  let jar := match sent.reply with
    | none => jar
    | some r => storeResponseCookies urls.cookies (w.clock (st.log.length + 1)) u.1
        o.initiatorOpaque (credentialsAllowed urls u o) r.headers jar
  ({ st with jar, log := st.log ++ [sent] }, sent)

/-- How a request ends. -/
inductive Outcome
  /-- A page or an answer of the worker's own. -/
  | own
  /-- `Response.error()`. -/
  | error
  /-- The answer to a redirect that the page follows by itself. It has no content. -/
  | opaqueRedirect
  /-- The response of a URL is given to the page. -/
  | exposed (r : Response) (url : Line)

/-- The checks before a request: its canonical URL, or how it ends. -/
def admission (st : State) (target : Text) (o : Options) : Except Outcome Line :=
  match urls.canonical target with
  | .error _ => .error .own
  | .ok u =>
    if o.mode = .sameOrigin ∧ urls.origin u ≠ o.origin then .error .error
    else if urls.stub u || !w.ready st.log.length then .error .own
    else .ok u

/-! ## Preflights -/

def preflightHeaders (method : Text) (names : List Text) : Headers :=
  let h := (Headers.empty.set "Accept" "*/*").set
    "Access-Control-Request-Method" method
  if names.isEmpty then h
  else h.set "Access-Control-Request-Headers" (",".toList.intercalate names)

def preflightOptions (o : Options) (names : List Text) : Options :=
  { o with
    method := "OPTIONS"
    headers := preflightHeaders o.method names
    credentials := .omitted
    redirect := .error
    mode := .cors
    preflight := true }

theorem sentOrigin_preflightOptions (u : Line) (o : Options) (names : List Text) :
    sentOrigin urls u (preflightOptions o names) = some (corsOrigin o) := by
  have hm : ("OPTIONS" != "GET".toList && "OPTIONS" != "HEAD".toList) := by
    decide
  rw [sentOrigin, show (preflightOptions o names).method = "OPTIONS" from rfl, hm, Bool.true_or]
  rfl

def grantOf (st : State) (u : Line) (o : Options) (names : List Text) : Option Grant :=
  let sent := (send urls w st u (preflightOptions o names)).2
  match hr : sent.reply with
  | none => none
  | some r =>
    if h : (200 ≤ r.status ∧ r.status ≤ 299) ∧
        corsCheck r.headers (corsOrigin o).1 (o.credentials == .included) then
      some
        { tabId := o.tabId
          origin := corsOrigin o
          url := u
          credentials := o.credentials == .included
          request := sent
          reply := r
          preflight := rfl
          tabId_eq := rfl
          url_eq := rfl
          origin_eq := sentOrigin_preflightOptions urls u o names
          reply_eq := hr
          ok := h.1
          check := h.2 }
    else none

/-- The cache with one more grant: the oldest entry goes when there are 256. -/
def remember (cache : List Grant) (g : Grant) : List Grant :=
  if preflightMaxAge g.reply.headers = 0 then cache
  else
    let cache := if 256 ≤ cache.length then cache.tail else cache
    Keyed.put Grant.key (fun _ => g) g cache

def cachedGrant (st : State) (u : Line) (o : Options) (names : List Text) : Option Grant :=
  (Keyed.lookup Grant.key (preflightKey o.tabId (corsOrigin o) u (o.credentials == .included))
    st.cache).filter fun g => decide (w.clock st.log.length < g.entry.expires) &&
      corsPreflightAllows g.entry o.method names (o.credentials == .included)

/-- `runCORSPreflight`. -/
def runCORSPreflight (st : State) (u : Line) (o : Options) (names : List Text) : State × Bool :=
  if (cachedGrant w st u o names).isSome then (st, true)
  else match admission urls w st u.1 (preflightOptions o names) with
    | .error _ => (st, false)
    | .ok u =>
      let st' := (send urls w st u (preflightOptions o names)).1
      match grantOf urls w st u o names with
      | none => (st', false)
      | some g =>
        if corsPreflightAllows g.entry o.method names (o.credentials == .included) then
          ({ st' with cache := remember st'.cache g }, true)
        else (st', false)

/-! ## Hops -/

/-- A hop of a chain: what was sent, and what had been sent before. -/
structure Hop where
  past : List Sent
  sent : Sent

/-- The request of a hop is tainted when its URL is not of the document's origin. -/
def taint (u : Line) (o : Options) : Options :=
  { o with tainted := o.tainted || (corsRequest o && urls.origin u != o.origin) }

def ensurePreflight (st : State) (u : Line) (o : Options) : State × Bool :=
  let names := corsUnsafeHeaderNames o.headers o.implicitHeaders
  if corsRequest o && o.tainted && o.kind != .elementCors &&
      (!corsSafelistedMethod o.method || !names.isEmpty) then
    runCORSPreflight urls w st u o names
  else (st, true)

/-- `ZP.redirectMethod`. -/
def redirectMethod (status : Nat) (method : Text) : Text :=
  if (status == 301 || status == 302) && method == "POST" then "GET"
  else if status == 303 && method != "GET" && method != "HEAD" then "GET"
  else method

def bodyHeaders : List Text := ["content-encoding", "content-language", "content-location",
    "content-type", "content-length"]

def redirectHeaders (u next : Line) (status : Nat) (o : Options) : Headers :=
  let h := if redirectMethod status o.method != o.method then bodyHeaders.foldl Headers.delete o.headers
    else o.headers
  if urls.origin next != urls.origin u then h.delete "Authorization" else h

def redirectOptions (u next : Line) (status : Nat) (o : Options) : Options :=
  { o with
    method := redirectMethod status o.method
    headers := redirectHeaders urls u next status o
    originTainted := o.originTainted ||
      (corsRequest o && urls.origin next != urls.origin u && urls.origin u != o.origin) }

/-- Where a hop goes next: its canonical URL, unless it is refused. -/
def nextURL (location : Text) (u : Line) (o : Options) : Option Line :=
  match urls.join location u with
  | none => none
  | some (raw, credentials) =>
    match urls.canonical raw with
    | .error _ => none
    | .ok next =>
      if corsRequest o && urls.origin next != o.origin && credentials then none else some next

/-- The request is made once more, with the client hints that the response calls critical. -/
def needsRestart (u : Line) (o : Options) (r : Response) : Bool :=
  o.kind == .document false && !o.criticalRestart && w.missesHints u r.headers &&
    (redirectLocation r).isNone

def rejected (o : Options) : Outcome := if o.kind == .runtimeFetch then .error else .own

def refused (o : Options) (r : Response) : Bool :=
  corsRequest o && o.tainted && !corsCheck r.headers (corsOrigin o).1 (o.credentials == .included)

/-- The request of a hop, made again when it needs a restart: the hops, and the URL, the
    options and the response that the hop goes on with, unless it is over. -/
def attempt (st : State) (u : Line) (o : Options) :
    State × List Hop × (Outcome ⊕ (Line × Options × Response)) :=
  let (st₁, s) := send urls w st u o
  match s.reply with
  | none => (st₁, [⟨st.log, s⟩], .inl (rejected o))
  | some r =>
    if needsRestart w u o r then
      let o := { o with criticalRestart := true }
      match admission urls w st₁ u.1 o with
      | .error outcome => (st₁, [⟨st.log, s⟩], .inl outcome)
      | .ok u =>
        let (st₂, s₂) := send urls w st₁ u o
        match s₂.reply with
        | none => (st₂, [⟨st.log, s⟩, ⟨st₁.log, s₂⟩], .inl (rejected o))
        | some r => (st₂, [⟨st.log, s⟩, ⟨st₁.log, s₂⟩], .inr (u, o, r))
    else (st₁, [⟨st.log, s⟩], .inr (u, o, r))

/-- How a hop goes on. -/
inductive Step
  | ends (outcome : Outcome)
  /-- The page's redirect mode is `follow`, and the response of a URL has a `Location`. -/
  | redirects (location : Text) (u : Line) (o : Options) (status : Nat)

def redirectStep (location : Text) (u : Line) (o : Options) (status : Nat) : Step :=
  match o.redirect with
  | .error => .ends .error
  | .manual => .ends .opaqueRedirect
  | .follow => .redirects location u o status

/-- What becomes of a response. -/
def replyStep (u : Line) (o : Options) (r : Response) : Step :=
  if refused o r then .ends .error
  else match redirectLocation r with
    | none => .ends (.exposed r u)
    | some location => redirectStep location u o r.status

/-- A hop as far as its response. -/
def hopStep (st : State) (target : Text) (o : Options) : State × List Hop × Step :=
  let st := (w.others st.log.length).apply st
  match admission urls w st target o with
  | .error outcome => (st, [], .ends outcome)
  | .ok u =>
    let o := taint urls u o
    match ensurePreflight urls w st u o with
    | (st, false) => (st, [], .ends .error)
    | (st, true) =>
      match attempt urls w st u o with
      | (st, hops, .inl outcome) => (st, hops, .ends outcome)
      | (st, hops, .inr (u, o, r)) => (st, hops, replyStep u o r)

/-- `transportFetchHop`, with the number of redirects it may still follow. -/
def transportFetchHop (left : Nat) (st : State) (target : Text) (o : Options) :
    State × List Hop × Outcome :=
  match hopStep urls w st target o with
  | (st, hops, .ends outcome) => (st, hops, outcome)
  | (st, hops, .redirects location u o status) =>
    match left with
    | 0 => (st, hops, rejected o)
    | left + 1 =>
      match nextURL urls location u o with
      | none => (st, hops, .error)
      | some next =>
        let (st, rest, outcome) := transportFetchHop left st next.1
          (redirectOptions urls u next status o)
        (st, hops ++ rest, outcome)

/-- What `transportFetch` is called with. The browser gives tokens as methods and as names of
    headers, the names in lower case. -/
structure Init where
  tabId : Line
  kind : Kind
  opaqueOrigin : Bool
  /-- The document is sandboxed without an origin of its own. -/
  entryOpaque : Bool
  documentUrl : Line
  /-- The document that submits a form. -/
  submitReferrer : Option Line
  mode : Mode
  method : Text
  headers : Headers
  implicitHeaders : List Text
  credentials : Option Credentials
  redirect : Option RedirectMode
  body : RequestBody
  method_token : isToken method
  headers_token : ∀ e ∈ headers.list, isToken e.1 ∧ lower e.1 = e.1

def Init.initiatorUrl (q : Init) : Line := q.submitReferrer.getD q.documentUrl

def Init.options (q : Init) : Options where
  tabId := q.tabId
  kind := q.kind
  origin := if q.opaqueOrigin then nullOrigin else urls.origin q.initiatorUrl
  documentUrl := q.documentUrl
  mode := q.mode
  method := q.method
  headers := q.headers
  implicitHeaders := q.implicitHeaders
  credentials := q.credentials.getD .included
  redirect := q.redirect.getD .follow
  initiatorOpaque := (q.opaqueOrigin || q.entryOpaque) && (match q.kind with
    | .document _ => false
    | _ => true)
  tainted := false
  originTainted := false
  preflight := false
  criticalRestart := false

def transportFetch (st : State) (target : Text) (q : Init) : State × List Hop × Outcome :=
  match urls.canonical target with
  | .error _ => (st, [], .own)
  | .ok u =>
    match q.body with
    | .unreadable => (st, [], .error)
    | .tooLarge => (st, [], .own)
    | .accepted => transportFetchHop urls w 20 st u.1 (q.options urls)

/-! ## Client hints

What the browser says of itself, and to which origins. -/

/-! ### The browser -/

def targetChromeMajor : Nat := 155

/-- `chromeBrandList`: brands and their versions. -/
def chromeBrandList (major : Nat) : List (Text × Text) :=
  let chars := " (:-./);=?_".toList
  let orders := [[0, 1, 2], [0, 2, 1], [1, 0, 2], [1, 2, 0], [2, 0, 1], [2, 1, 0]]
  let version := Nat.toDigits 10 major
  let generated :=
    [("Not" ++ [chars.getD (major % 11) ' '] ++ "A" ++
        [chars.getD ((major + 1) % 11) ' '] ++ "Brand",
      ["8".toList, "99", "24"].getD (major % 3) []),
    ("Chromium", version), ("Google Chrome", version)]
  let order := orders.getD (major % 6) []
  -- The entry number `i` stands at place `order[i]`.
  [0, 1, 2].map fun place => generated.getD (order.idxOf place) ([], [])

def targetUserAgent : Text :=
  "Mozilla/5.0 (Windows NT 10.0; Win64; x64) AppleWebKit/537.36 (KHTML, like Gecko) Chrome/"
    ++ Nat.toDigits 10 targetChromeMajor ++ ".0.0.0 Safari/537.36"

def quoted (s : Text) : Text := '"' :: s ++ ['"']

def brandHeader (list : List (Text × Text)) : Text :=
  ", ".toList.intercalate (list.map fun b => quoted b.1 ++ ";v=" ++ quoted b.2)

def targetSecChUa : Text := brandHeader (chromeBrandList targetChromeMajor)

def targetChromeFullVersion : Text := Nat.toDigits 10 targetChromeMajor ++ ".0.8059.85"

/-- `TARGET_UA_HIGH_ENTROPY.fullVersionList`. -/
def targetFullVersionList : List (Text × Text) :=
  (chromeBrandList targetChromeMajor).map fun b =>
    (b.1, if b.1 == "Chromium".toList || b.1 == "Google Chrome".toList then targetChromeFullVersion
      else b.2 ++ ".0.0.0")

/-! ### Hints and their values -/

def clientHintNavOrder : List Text := ["device-memory", "sec-ch-device-memory", "dpr", "sec-ch-dpr",
    "viewport-width", "sec-ch-viewport-width", "sec-ch-viewport-height", "rtt", "downlink", "ect",
    "sec-ch-ua", "sec-ch-ua-mobile", "sec-ch-ua-full-version", "sec-ch-ua-arch",
    "sec-ch-ua-platform", "sec-ch-ua-platform-version", "sec-ch-ua-model", "sec-ch-ua-bitness",
    "sec-ch-ua-wow64", "sec-ch-ua-full-version-list", "sec-ch-ua-form-factors",
    "sec-ch-prefers-color-scheme", "sec-ch-prefers-reduced-motion",
    "sec-ch-prefers-reduced-transparency", "save-data"]

def clientHintDefaults : List Text := ["sec-ch-ua", "sec-ch-ua-mobile", "sec-ch-ua-platform"]

/-- `BROWSER_CLIENT_HINTS`: the hints that the worker does not take from anyone else. -/
def browserClientHints : List Text :=
  clientHintNavOrder ++
    ["width".toList, "sec-ch-width", "sec-ch-ua-reduced", "sec-ch-ua-full"]

def parseClientHintList (value : Text) : List Text :=
  ((split (· == ',') value).map fun raw => jsLower (jsTrim raw)).filter clientHintNavOrder.contains

/-- What the window of a tab reported, after `sanitizeClientEnv`. Numbers are written out, and
    absent when they are not positive. -/
structure ClientEnv where
  dpr : Option Text
  vw : Option Text
  vh : Option Text
  scheme : Text
  motion : Text
  transparency : Text

/-- What the hints depend on beside the browser: `self.navigator`, its `connection` and
    `tab.clientEnv`. Numbers are written out. -/
structure Device where
  deviceMemory : Option Text
  rtt : Option Text
  downlink : Option Text
  effectiveType : Option Text
  saveData : Bool
  env : Option ClientEnv

/-- A value, when it is one of a list. -/
def oneOf (allowed : List Text) (v : Text) : Option Text :=
  if allowed.contains v then some v else none

def clientHintTable (d : Device) : List (Text × Option Text) :=
  let motions := ["reduce".toList, "no-preference"]
  [("sec-ch-ua", some targetSecChUa),
    ("sec-ch-ua-mobile", some "?0"),
    ("sec-ch-ua-platform", some (quoted "Windows")),
    ("sec-ch-ua-arch", some (quoted "x86")),
    ("sec-ch-ua-bitness", some (quoted "64")),
    ("sec-ch-ua-full-version", some (quoted targetChromeFullVersion)),
    ("sec-ch-ua-full-version-list", some (brandHeader targetFullVersionList)),
    ("sec-ch-ua-model", some (quoted [])),
    ("sec-ch-ua-platform-version", some (quoted "19.0.0")),
    ("sec-ch-ua-wow64", some "?0"),
    ("sec-ch-ua-form-factors", some (quoted "Desktop")),
    ("device-memory", d.deviceMemory),
    ("sec-ch-device-memory", d.deviceMemory),
    ("rtt", d.rtt),
    ("downlink", d.downlink),
    ("ect", d.effectiveType),
    ("save-data", if d.saveData then some "on" else none),
    ("dpr", d.env.bind (·.dpr)),
    ("sec-ch-dpr", d.env.bind (·.dpr)),
    ("viewport-width", d.env.bind (·.vw)),
    ("sec-ch-viewport-width", d.env.bind (·.vw)),
    ("sec-ch-viewport-height", d.env.bind (·.vh)),
    ("sec-ch-prefers-color-scheme",
      d.env.bind fun env => oneOf ["dark", "light"] env.scheme),
    ("sec-ch-prefers-reduced-motion", d.env.bind fun env => oneOf motions env.motion),
    ("sec-ch-prefers-reduced-transparency",
      d.env.bind fun env => oneOf motions env.transparency)]

def clientHintValue (d : Device) (name : Text) : Option Text :=
  ((clientHintTable d).lookup name).join

/-! ### The hints of a request -/

/-- `clientHintPrefs`: what the servers of an origin asked for. -/
abbrev HintPrefs := Line → List Text

variable (urls : Urls)

def potentiallyTrustworthyURL (u : Text) : Bool :=
  match urls.cookies.parseUrl u with
  | none => false
  | some url =>
    url.protocol == "https:" || url.hostname == "localhost" ||
      ".localhost".toList.isSuffixOf url.hostname || "127.".toList.isPrefixOf url.hostname ||
      url.hostname == "[::1]"

/-- Where a request is made: `tab.topOrigin`, the origin of the document around a frame, and
    `context.origin`. -/
structure HintPlace where
  topLevel : Bool
  inFrame : Bool
  top : Line
  parent : Line
  context : Line

/-- The preferences that apply to a request to an origin. -/
def HintPlace.prefs (p : HintPlace) (prefs : HintPrefs) (origin : Line) : List Text :=
  if p.topLevel then prefs origin
  else if origin == p.top && (if p.inFrame then p.parent else p.context) == p.top then prefs p.top
  else []

def highEntropyHintsFor (prefs : HintPrefs) (p : HintPlace) (u : Line) : List Text :=
  if !potentiallyTrustworthyURL urls u.1 then []
  else clientHintNavOrder.filter fun n =>
    (p.prefs prefs (urls.origin u)).contains n && !clientHintDefaults.contains n

def sentHints (prefs : HintPrefs) (p : HintPlace) (u : Line) : List Text :=
  if potentiallyTrustworthyURL urls u.1 then
    clientHintDefaults ++ highEntropyHintsFor urls prefs p u
  else []

/-! ### Critical hints -/

/-- What the hints of a top-level document depend on: the device, and the preferences when its
    request is sent and when the response is there. -/
structure HintState where
  device : Device
  sent : HintPrefs
  prefs : HintPrefs

/-- The preferences for an origin after a response of its own. -/
def HintState.accepted (h : HintState) (origin : Line) (r : Headers) : List Text :=
  match r.get "accept-ch" with
  | none => h.prefs origin
  | some v => parseClientHintList v

def HintState.sentHints (h : HintState) (u : Line) : List Text :=
  Fetch.sentHints urls h.sent ⟨true, false, urls.origin u, urls.origin u, urls.origin u⟩ u

/-- The hints that a response to the request for such a document calls critical, which the
    server asked for, which the request did not have and which the worker has a value for. -/
def HintState.missing (h : HintState) (u : Line) (r : Headers) : List Text :=
  match r.get "critical-ch" with
  | none => []
  | some v => (parseClientHintList v).filter fun n =>
    (h.accepted (urls.origin u) r).contains n && !(h.sentHints urls u).contains n &&
      (clientHintValue h.device n).isSome

/-- The world with those hints. Only one response of a chain is ever asked for missing hints,
    the one that does not redirect, so that one state of the hints is enough. -/
def World.withHints (w : World) (h : HintState) : World :=
  { w with missesHints := fun u r =>
      potentiallyTrustworthyURL urls u.1 && !(h.missing urls u r).isEmpty }

open StableSort
open Kernel (isInternal)

/-! ## What a hop knows -/

/-- What the headers of a hop depend on beside its options. -/
structure HeaderContext where
  /-- The headers of the request that was intercepted, on the first hop. A `fetch` and an
      `XMLHttpRequest` come without one. -/
  request : Option Headers
  noRange : Bool
  /-- `ORIGIN`, the origin of the proxy itself. -/
  proxyOrigin : Text
  /-- `context.referrer`. -/
  referrer : Option Line
  /-- The result of `refererForPolicy`, empty for no `Referer`. -/
  referer : Text
  entryId : Text
  streamIsolationKey : Text
  runtimeToken : Text
  /-- The servers of the tab as JSON. -/
  relayServers : Text
  challengeCompat : Bool
  navDest : Text
  /-- The mode, the destination and the credentials mode of the load of an element. -/
  elementMode : Text
  elementDest : Text
  elementCredentials : Credentials
  /-- `browserAcceptLanguage`. -/
  acceptLanguage : Text
  device : Device
  prefs : HintPrefs
  place : HintPlace

def isDocument (o : Options) : Bool :=
  match o.kind with
  | .document _ => true
  | _ => false

/-! ## Metadata -/

def secFetchMode (x : HeaderContext) (o : Options) : Text :=
  match o.kind with
  | .document _ => "navigate"
  | .runtimeFetch => match o.mode with
    | .noCors => "no-cors"
    | .sameOrigin => "same-origin"
    | _ => "cors"
  | _ => x.elementMode

def secFetchDest (x : HeaderContext) (o : Options) : Text :=
  match o.kind with
  | .document _ => x.navDest
  | .runtimeFetch => "empty"
  | _ => x.elementDest

variable (urls : Urls)

def fetchSiteRelation (initiator target : Line) : Text :=
  match urls.cookies.parseUrl initiator.1, urls.cookies.parseUrl target.1 with
  | some a, some b =>
    if urls.origin initiator = urls.origin target then "same-origin"
    else if a.protocol = b.protocol ∧ registrableDomain a.hostname = registrableDomain b.hostname then
      "same-site"
    else "cross-site"
  | _, _ => "cross-site"

def secFetchSite (x : HeaderContext) (u : Line) (o : Options) : Text :=
  match o.kind with
  | .document inFrame => match x.referrer with
    | some r => fetchSiteRelation urls r u
    | none => if inFrame then "cross-site" else "none"
  | _ => if o.initiatorOpaque then "cross-site" else fetchSiteRelation urls o.documentUrl u

/-- The request of a frame or with cookies, from another site. -/
def storageAccess (x : HeaderContext) (u : Line) (o : Options) : Bool :=
  secFetchSite urls x u o == "cross-site" && match o.kind with
    | .document inFrame => inFrame
    | .subresource => x.elementCredentials == .included
    | _ => o.credentials == .included

/-! ## The headers for the kernel -/

/-- The value of `Referer` or `Origin` names the proxy. -/
def dropLeak (proxyOrigin : Text) (h : Headers) (name : Text) : Headers :=
  match h.get name with
  | none => h
  | some v => if !v.isEmpty && Text.contains v proxyOrigin then h.delete name else h

/-- The `Cookie` header, empty for none. -/
def requestCookie (jar : CookieJar) (now : Int) (u : Line) (o : Options) : Text :=
  cookieString (requestCookies urls jar now u o).2

def setUnlessEmpty (name value : Text) : List (Text × Option Text) :=
  if value.isEmpty then [] else [(name, some value)]

/-- The changes of the headers for `Referer` and `Origin`. -/
def referrerEdits (x : HeaderContext) (u : Line) (o : Options) : List (Text × Option Text) :=
  [("X-ZP-Referer".toList, none), ("X-ZP-Origin", none)] ++
    setUnlessEmpty "X-ZP-Referer" x.referer ++
    ((sentOrigin urls u o).map fun v => ("X-ZP-Origin".toList, some v.1)).toList

/-- The changes after that. -/
def controlEdits (x : HeaderContext) (cookie : Text) (o : Options) : List (Text × Option Text) :=
  [("X-ZP-Tab-Id".toList, some o.tabId.1), ("X-ZP-Entry-Id", some x.entryId),
    ("X-ZP-Stream-Isolation-Key", some x.streamIsolationKey),
    ("X-ZP-Runtime-Token", some x.runtimeToken), ("X-ZP-Relay-Servers", some x.relayServers)] ++
    (if isDocument o then [("X-ZP-Document-Request".toList, some "1".toList)] else []) ++
    (if x.challengeCompat then [("X-ZP-Arm-Challenge-Compat".toList, some "1".toList)] else []) ++
    [("Cookie".toList, none)] ++ setUnlessEmpty "Cookie" cookie

def controlHeaders (x : HeaderContext) (cookie : Text) (u : Line) (o : Options) : Headers :=
  let h := (referrerEdits urls x u o).foldl Headers.edit o.headers
  let h := ["Referer".toList, "Origin"].foldl (dropLeak x.proxyOrigin) h
  (controlEdits x cookie o).foldl Headers.edit h

/-! ## The list of fields -/

/-- `Headers.prototype.entries`: one field for a name, with its combined value. Only the values
    of `Set-Cookie` stay apart. -/
def entries (h : Headers) : List Field :=
  (headerNames h).flatMap fun n =>
    if n = "set-cookie".toList then (h.values n).map fun v => (n, v)
    else [(n, (h.get n).getD [])]

def seen (es : List Field) (kl : Text) : Bool := es.any fun e => jsLower e.1 == kl

/-- A field is not pushed whatever was pushed before: a hint that is not the worker's own, or
    metadata for a server that gets none. -/
def refuses (trustworthy own : Bool) (kl : Text) : Bool :=
  (!own && browserClientHints.contains kl) ||
    (!trustworthy && "sec-fetch-".toList.isPrefixOf kl)

def pushOnce (trustworthy own : Bool) (es : List Field) (e : Field) : List Field :=
  if seen es (jsLower e.1) || refuses trustworthy own (jsLower e.1) then es else es ++ [e]

def pushAll (trustworthy own : Bool) (es l : List Field) : List Field :=
  l.foldl (pushOnce trustworthy own) es

/-- A playlist is requested as a whole. -/
def withoutRange (noRange : Bool) (l : List Field) : List Field :=
  l.filter fun e =>
    !(noRange && (jsLower e.1 == "range" || jsLower e.1 == "if-range"))

/-- The headers of an intercepted request that are not taken. -/
def skippedNames : List Text := ["cookie", "host", "origin", "referer", "user-agent",
    "accept-encoding", "connection", "content-length", "transfer-encoding"]

def requestFields (x : HeaderContext) : List Field :=
  match x.request with
  | none => []
  | some r => withoutRange x.noRange
      ((entries r).filter fun e => !skippedNames.contains (jsLower e.1))

def defaultFields (x : HeaderContext) (o : Options) : List Field :=
  (if o.kind = .document false then [("sec-fetch-user".toList, "?1".toList)] else []) ++
    [("accept-language".toList, x.acceptLanguage)] ++
    (if isDocument o then [("priority".toList, "u=0, i".toList)] else []) ++
    (if o.kind = .runtimeFetch then [("accept".toList, "*/*".toList)] else []) ++
    [("user-agent".toList, targetUserAgent)]

def hintFields (x : HeaderContext) (u : Line) : List Field :=
  (sentHints urls x.prefs x.place u).filterMap fun n =>
    (clientHintValue x.device n).map fun v => (n, v)

/-- `Sec-Fetch-Site`, and what goes with it, unless the list has it. -/
def pushSite (trustworthy : Bool) (x : HeaderContext) (u : Line) (o : Options) (es : List Field) :
    List Field :=
  if seen es "sec-fetch-site" then es
  else pushAll trustworthy false es
    (("sec-fetch-site", secFetchSite urls x u o) ::
      if storageAccess urls x u o then [("sec-fetch-storage-access", "active")]
      else [])

/-- The fields of a request, as they are pushed. -/
def headerEntries (x : HeaderContext) (cookie : Text) (u : Line) (o : Options) : List Field :=
  let trustworthy := potentiallyTrustworthyURL urls u.1
  let es := pushOnce trustworthy false [] ("user-agent", targetUserAgent)
  let es := pushAll trustworthy false es
    (withoutRange x.noRange (entries (controlHeaders urls x cookie u o)))
  let es := pushAll trustworthy false es (requestFields x)
  let es := pushAll trustworthy false es
    [("sec-fetch-mode", secFetchMode x o), ("sec-fetch-dest", secFetchDest x o)]
  let es := pushSite urls trustworthy x u o es
  let es := pushAll trustworthy false es (defaultFields x o)
  pushAll trustworthy true es (hintFields urls x u)

/-! ## The order of the fields -/

def navRequestLine : List Text := ["upgrade-insecure-requests", "user-agent", "accept"]

def navTail : List Text := ["*", "origin", "content-type", "sec-fetch-site", "sec-fetch-mode",
    "sec-fetch-user", "sec-fetch-dest", "sec-fetch-storage-access", "referer", "accept-encoding",
    "accept-language", "cookie", "priority"]

def subTail : List Text := ["sec-fetch-site", "sec-fetch-mode", "sec-fetch-dest",
    "sec-fetch-storage-access", "referer", "accept-encoding",
    "accept-language", "cookie", "priority"]

def subMapPlain : List Text := ["sec-ch-ua-platform", "user-agent", "sec-ch-ua", "content-type",
    "*", "sec-ch-ua-mobile", "accept", "origin"]

def subMapUA : List Text := ["sec-ch-ua-full-version-list", "sec-ch-ua-platform", "sec-ch-ua",
    "sec-ch-ua-bitness", "sec-ch-ua-model", "sec-ch-ua-mobile", "sec-ch-ua-arch",
    "sec-ch-ua-full-version", "user-agent", "content-type", "*", "sec-ch-ua-platform-version",
    "accept", "origin"]

def subMapAll : List Text := ["sec-ch-ua-full-version-list", "sec-ch-ua-platform", "viewport-width",
    "device-memory", "sec-ch-ua", "sec-ch-dpr", "sec-ch-ua-model", "sec-ch-ua-mobile",
    "sec-ch-ua-form-factors", "sec-ch-ua-bitness", "sec-ch-ua-wow64", "sec-ch-ua-arch",
    "sec-ch-prefers-reduced-transparency", "sec-ch-ua-full-version", "content-type",
    "sec-ch-viewport-width", "downlink", "sec-ch-viewport-height", "ect", "sec-ch-device-memory",
    "sec-ch-prefers-reduced-motion", "dpr", "sec-ch-prefers-color-scheme", "user-agent", "*", "rtt",
    "sec-ch-ua-platform-version", "save-data", "accept", "origin"]

def requestHeaderTemplate (o : Options) (hints : List Text) : List Text :=
  let navHints := clientHintNavOrder.filter hints.contains
  if isDocument o then
    if o.criticalRestart then navRequestLine ++ navHints ++ navTail
    else navHints ++ navRequestLine ++ navTail
  else
    let high := hints.filter fun n => !clientHintDefaults.contains n
    (if high.isEmpty then subMapPlain else if high.all subMapUA.contains then subMapUA
      else subMapAll) ++ subTail

/-- The place of a name in a template. A name that is not there has the place of the star. -/
def templateRank (template : List Text) (name : Text) : Nat :=
  if template.contains name then template.idxOf name else template.idxOf "*".toList

/-- A name is added to a list that does not have it. -/
def addNew (order : List Text) (name : Text) : List Text :=
  if order.contains name then order else order ++ [name]

/-- `orderRequestHeaders`: the fields in the order of a template. -/
def sortedEntries (template : List Text) (es : List Field) : List Field :=
  sortByKey (fun e => templateRank template (jsLower e.1)) es

/-- `orderRequestHeaders`: the names, those of the template and those of the fields. -/
def headerOrder (template : List Text) (es : List Field) : List Text :=
  let names := (sortedEntries template es).map fun e => jsLower e.1
  let starred := names.filter fun n => templateRank template n == template.idxOf "*".toList
  let order := template.foldl (fun order name =>
    if name = "*".toList then starred.foldl addNew order else addNew order name) []
  names.foldl addNew order

def templateFor (x : HeaderContext) (cookie : Text) (u : Line) (o : Options) : List Text :=
  requestHeaderTemplate o ((sentHints urls x.prefs x.place u).filter
    (seen (headerEntries urls x cookie u o)))

def requestedOrder (x : HeaderContext) (cookie : Text) (u : Line) (o : Options) : List Text :=
  (headerOrder (templateFor urls x cookie u o) (headerEntries urls x cookie u o)).filter
    fun n => !isInternal n

/-- The list of headers that the worker hands to the kernel. -/
def handedHeaders (x : HeaderContext) (cookie : Text) (u : Line) (o : Options) : List Field :=
  sortedEntries (templateFor urls x cookie u o) (headerEntries urls x cookie u o) ++
    [("X-ZP-Header-Order".toList, ",".toList.intercalate (requestedOrder urls x cookie u o))]

end ZeroProxy.Worker.Fetch
