import ZeroProxy.Kernel.Response

/-!
# Navigations: from the target to a response

The part of the service worker that fetches a document (`transportFetch`,
`transportFetchHop`): it follows redirects itself, up to twenty of them, and gives the
final response the proxy's security headers.
-/

namespace ZeroProxy.Worker

open Text Http Kernel Headers

/-- The headers of the browser's request that are reflected. -/
structure Request where
  origin : Option Text
  urlOrigin : Text
  requestMethod : Option Text
  requestHeaders : Option Text

/-- The rejection of a request of the kernel. -/
structure TransportError where
  message : Text
  timeout : Bool

/-- The body of the browser's request: it may fail to be read, or be larger than the limit. -/
inductive RequestBody
  | accepted
  | unreadable
  | tooLarge

/-- What the worker is run with: its configuration, functions that are parameters here, and
    the answers of the servers. -/
structure Env where
  kernel : Kernel.Deps
  /-- `ZP.canonicalTargetURL`, with the code of its error. -/
  canonicalTargetURL : Text → Except Text Text
  /-- The canonical URL of a `Location`, relative to a URL. -/
  resolveLocation : Text → Text → Option Text
  /-- The kernel is loaded. -/
  kernelReady : Bool
  /-- What comes back from the network on the `n`-th request of the navigation. -/
  network : Nat → Text → Except TransportError Upstream
  /-- The reason a response of the kernel is rejected with. -/
  rejection : Text
  /-- The tab is armed for challenge pages. -/
  challengeCompat : Bool
  /-- `Critical-CH` names client hints that the request did not carry. -/
  missesHints : Text → Headers → Bool
  /-- The proxy's policy, given whether the response is a challenge page. -/
  proxiedCSP : Bool → Text
  /-- `ZP.fixedCSP()`. -/
  fixedCSP : Text
  /-- `ZP.trustedTypesPolicies`. -/
  trustedTypesPolicies : Text → List Text
  proxiedRefreshValue : Text → Text → Text
  /-- The error code that is shown, and the page that shows it. -/
  shownCode : Text → Text
  errorPage : Text → Text → Text

variable (env : Env)

/-! ## Own pages -/

def safeError (code : Text) (status : Nat) (targetUrl : Text) : Response where
  status := status
  statusText := []
  headers := ⟨[("content-type", "text/html; charset=utf-8"), ("cache-control", "no-store"),
    ("content-security-policy", env.fixedCSP),
    ("x-content-type-options", "nosniff"),
    ("x-zp-error", "1"),
    ("x-zp-error-code", env.shownCode code),
    ("access-control-allow-origin", "*"),
    ("access-control-allow-methods", "GET,HEAD,POST,PUT,PATCH,DELETE,OPTIONS"),
    ("access-control-allow-headers", "*"),
    ("access-control-expose-headers", "*")]⟩
  body := .text (env.errorPage (env.shownCode code) targetUrl)

/-! ## Security headers -/

/-- The test of `isHTMLResponse` and `targetDocumentCSP` on a `Content-Type`. -/
def isHTMLType (contentType : Text) : Bool :=
  testWord "text/html" contentType || testWord "application/xhtml+xml" contentType

/-- `isHTMLResponse`. -/
def isHTMLResponse (headers : Headers) : Bool := isHTMLType ((headers.get "Content-Type").getD [])

def orElse (v : Option Text) (otherwise : Text) : Text := (v.filter (!·.isEmpty)).getD otherwise

def corsOrigin : Option Request → Text
  | none => "*"
  | some req => orElse (some (orElse req.origin req.urlOrigin)) "*"

/-- The headers that allow an origin, with credentials unless it is any. -/
def allowOrigin (h : Headers) (origin : Text) : Headers :=
  let h := h.set "Access-Control-Allow-Origin" origin
  if origin = "*" then h
  else
    let vary := match (h.get "Vary").filter (!·.isEmpty) with
      | none => "Origin"
      | some v => v ++ ", Origin"
    (h.set "Vary" vary).set "Access-Control-Allow-Credentials" "true"

/-- `applyCORS`. -/
def applyCORS (h : Headers) (req : Option Request) : Headers :=
  (((allowOrigin h (corsOrigin req)).set "Access-Control-Allow-Methods"
    (orElse (req.bind (·.requestMethod)) "GET,HEAD,POST,PUT,PATCH,DELETE,OPTIONS")).set
    "Access-Control-Allow-Headers" (orElse (req.bind (·.requestHeaders)) "*")).set
    "Access-Control-Expose-Headers" "*"

/-- `ZP_REPORTING_HEADERS`, `ZP_TARGET_POLICY_HEADERS` and `ZP_HOP_BY_HOP_HEADERS`, after the
    policies that the proxy's own replaces. -/
def strippedHeaders : List Text :=
  ["Content-Security-Policy", "Content-Security-Policy-Report-Only", "X-Content-Security-Policy",
    "X-WebKit-CSP", "Report-To", "Reporting-Endpoints", "NEL", "Refresh", "Link", "Clear-Site-Data",
    "Alt-Svc", "Service-Worker-Allowed", "SourceMap", "X-SourceMap", "Set-Cookie", "Set-Cookie2",
    "Accept-CH", "Critical-CH", "Connection", "Keep-Alive", "Proxy-Authenticate",
    "Proxy-Authorization", "TE", "Trailer", "Transfer-Encoding", "Upgrade", "Location"]

def stripHeaders (h : Headers) : Headers :=
  strippedHeaders.foldl delete (h.delete "X-ZP-Challenge-Compat")

/-- `applyZPSecurityHeaders`. -/
def applyZPSecurityHeaders (h : Headers) (req : Option Request) (targetUrl : Text) : Headers :=
  let rawRefresh := (h.get "Refresh").getD []
  let armedHere := env.challengeCompat && h.get "X-ZP-Challenge-Compat" == some "1".toList
  let targetCSP := if isHTMLResponse h then (h.get "Content-Security-Policy").getD [] else []
  let h := stripHeaders h
  let h := h.set "Content-Security-Policy"
    (", ".toList.intercalate (env.proxiedCSP armedHere :: env.trustedTypesPolicies targetCSP))
  let next := env.proxiedRefreshValue rawRefresh targetUrl
  let h := if rawRefresh.isEmpty || targetUrl.isEmpty || next.isEmpty then h
    else h.set "Refresh" next
  let h := h.set "X-Content-Type-Options" "nosniff"
  let h := h.set "Cache-Control" (orElse (h.get "Cache-Control") "no-store")
  applyCORS h req

/-- `addCSP`. -/
def addCSP (r : Response) (req : Option Request) (targetUrl : Text) : Response :=
  { r with headers := applyZPSecurityHeaders env r.headers req targetUrl }

/-! ## Redirects -/

/-- What a fetch ends with: a response of the proxy's own or a network error, or the response
    that was made of a server's answer. -/
inductive Fetched
  | own (served : Served)
  | upstream (up : Upstream) (r : Response) (url : Text)

/-- One request of the kernel. -/
def fetchOnce (n : Nat) (targetUrl : Text) : Fetched :=
  match env.canonicalTargetURL targetUrl with
  | .error code => .own (.response (safeError env code 403 targetUrl))
  | .ok u =>
    if !env.kernelReady then .own (.response (safeError env "SW_NOT_READY" 503 u))
    else match env.network n u with
      | .error e => .own (.response (safeError env e.message (if e.timeout then 504 else 502) u))
      | .ok up =>
        match kernelResponse env.kernel u env.challengeCompat up with
        | none => .own (.response (safeError env env.rejection 502 u))
        | some r => .upstream up r u

def redirectLocation (r : Response) : Option Text :=
  if [301, 302, 303, 307, 308].contains r.status then
    (r.headers.get "Location").filter (!·.isEmpty)
  else none

/-- The request is made once more, with the client hints that the response calls critical. -/
def needsRestart (restarted : Bool) (r : Response) (url : Text) : Bool :=
  !restarted && env.missesHints url r.headers && (redirectLocation r).isNone

/-- The request of a hop, made again when it needs a restart; with it, the number of requests
    made and whether there was a restart. -/
def fetchHop (n : Nat) (restarted : Bool) (targetUrl : Text) : Fetched × Nat × Bool :=
  match fetchOnce env n targetUrl with
  | .upstream up r u =>
    if needsRestart env restarted r u then (fetchOnce env (n + 1) u, n + 2, true)
    else (.upstream up r u, n + 1, restarted)
  | f => (f, n + 1, restarted)

/-- `transportFetchHop` of a navigation, with the number of redirects it may still follow. -/
def transportFetchHop (req : Option Request) : Nat → Nat → Bool → Text → Fetched
  | left, n, restarted, targetUrl =>
    match fetchHop env n restarted targetUrl with
    | (.own s, _, _) => .own s
    | (.upstream up r u, n, restarted) =>
      match redirectLocation r with
      | none => .upstream up (addCSP env r req u) u
      | some location =>
        match left with
        | 0 => .own (.response (safeError env "REDIRECT_LIMIT_EXCEEDED" 508 targetUrl))
        | left + 1 =>
          match env.resolveLocation location u with
          | none => .own .networkError
          | some next => transportFetchHop req left n restarted next

/-- `transportFetch` of a navigation. -/
def transportFetch (req : Option Request) (body : RequestBody) (targetUrl : Text) : Fetched :=
  match env.canonicalTargetURL targetUrl with
  | .error code => .own (.response (safeError env code 403 targetUrl))
  | .ok target =>
    match body with
    | .unreadable => .own .networkError
    | .tooLarge => .own (.response (safeError env "REQUEST_BODY_TOO_LARGE" 413 target))
    | .accepted => transportFetchHop env req 20 0 false target

/-! ## What a fetch gives -/

variable {env}

/-- A server's answer is delivered when it is the response of some request, redirects
    nowhere, and has got the security headers. -/
def Delivered (env : Env) (req : Option Request) (up : Upstream) (r : Response) (u : Text) : Prop :=
  ∃ n r₀, env.network n u = .ok up ∧ kernelResponse env.kernel u env.challengeCompat up = some r₀ ∧
    redirectLocation r₀ = none ∧ r = addCSP env r₀ req u

section Upstream

variable {req : Option Request} {n : Nat} {restarted : Bool} {targetUrl : Text} {up : Upstream}
  {r : Response} {u : Text}

theorem of_fetchOnce (h : fetchOnce env n targetUrl = .upstream up r u) :
    env.network n u = .ok up ∧ kernelResponse env.kernel u env.challengeCompat up = some r := by
  rw [fetchOnce] at h
  split at h
  · cases h
  split_ifs at h
  split at h
  · cases h
  next hnet =>
  split at h
  · cases h
  · next hr =>
    cases h
    exact ⟨hnet, hr⟩

theorem of_fetchHop {n' : Nat} {b : Bool}
    (h : fetchHop env n restarted targetUrl = (.upstream up r u, n', b)) :
    ∃ m, env.network m u = .ok up ∧
      kernelResponse env.kernel u env.challengeCompat up = some r := by
  rw [fetchHop] at h
  split at h
  · next hs =>
    split_ifs at h
    · exact ⟨_, of_fetchOnce (congrArg Prod.fst h)⟩
    · cases h
      exact ⟨_, of_fetchOnce hs⟩
  · next hne => exact absurd (congrArg Prod.fst h) (hne _ _ _)

theorem Delivered.of_transportFetchHop {left : Nat}
    (h : transportFetchHop env req left n restarted targetUrl = .upstream up r u) :
    Delivered env req up r u := by
  fun_induction transportFetchHop env req left n restarted targetUrl with
  | case2 left n restarted targetUrl up r u n' b hhop hloc =>
    cases h
    obtain ⟨m, hnet, hr⟩ := of_fetchHop hhop
    exact ⟨m, r, hnet, hr, hloc, rfl⟩
  | case5 _ _ _ _ _ _ _ _ _ _ _ _ _ _ ih => exact ih h
  | _ => cases h

theorem Delivered.of_transportFetch {body : RequestBody}
    (h : transportFetch env req body targetUrl = .upstream up r u) : Delivered env req up r u := by
  rw [transportFetch] at h
  split at h
  · cases h
  · cases body with
    | accepted => exact .of_transportFetchHop h
    | unreadable | tooLarge => cases h

end Upstream

/-! ## What the security headers leave -/

/-- The headers that `applyZPSecurityHeaders` sets. -/
def securityHeaders : List Text := ["Content-Security-Policy", "Refresh", "X-Content-Type-Options",
    "Cache-Control", "Access-Control-Allow-Origin", "Vary", "Access-Control-Allow-Credentials",
    "Access-Control-Allow-Methods", "Access-Control-Allow-Headers", "Access-Control-Expose-Headers"]

/-- Those of them that `applyCORS` sets. -/
def corsHeaders : List Text := securityHeaders.drop 4

section

variable {h : Headers} {name : Text}

theorem values_applyCORS (hname : ∀ n ∈ corsHeaders, lower name ≠ lower n)
    (req : Option Request) : (applyCORS h req).values name = h.values name := by
  rw [applyCORS, values_set_of_ne (hname _ (by decide)), values_set_of_ne (hname _ (by decide)),
    values_set_of_ne (hname _ (by decide)), allowOrigin]
  split
  · rw [values_set_of_ne (hname _ (by decide))]
  · rw [values_set_of_ne (hname _ (by decide)), values_set_of_ne (hname _ (by decide)),
      values_set_of_ne (hname _ (by decide))]

theorem values_applyZPSecurityHeaders (hname : ∀ n ∈ securityHeaders, lower name ≠ lower n)
    (req : Option Request) (targetUrl : Text) :
    (applyZPSecurityHeaders env h req targetUrl).values name = (stripHeaders h).values name := by
  rw [applyZPSecurityHeaders, values_applyCORS fun n hn => hname n (List.mem_of_mem_drop hn),
    values_set_of_ne (hname _ (by decide)), values_set_of_ne (hname _ (by decide))]
  split
  · rw [values_set_of_ne (hname _ (by decide))]
  · rw [values_set_of_ne (hname _ (by decide)), values_set_of_ne (hname _ (by decide))]

end

theorem values_stripHeaders {h : Headers} {name : Text}
    (hname : ∀ n ∈ "X-ZP-Challenge-Compat".toList :: strippedHeaders, lower name ≠ lower n) :
    (stripHeaders h).values name = h.values name := by
  rw [stripHeaders, values_foldl_delete _ fun n hn => hname n (List.mem_cons_of_mem _ hn),
    values_delete_of_ne (hname _ (.head _))]

theorem values_location_applyZPSecurityHeaders (h : Headers) (req : Option Request)
    (targetUrl : Text) :
    (applyZPSecurityHeaders env h req targetUrl).values "Location" = [] := by
  rw [values_applyZPSecurityHeaders (by decide), stripHeaders]
  exact values_foldl_delete_of_mem _ (by decide)

end ZeroProxy.Worker
