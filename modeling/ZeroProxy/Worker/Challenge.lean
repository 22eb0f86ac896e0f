import ZeroProxy.Worker.Document

/-!
# The challenge-compatible policy

A tab may be armed for challenge pages. The kernel classifies a response
(`zp-shared/src/challenge.rs`) and tells the worker with the header
`X-ZP-Challenge-Compat: 1`; the worker then adds the challenge host to the sources of the
document's policy (`fixedCSP` of `zp-core.js`). A document that is streamed gets its policy a second
time, when the marker is gone.
-/

namespace ZeroProxy

open Http List Text Headers

namespace Kernel

def challengeHost : Text := "challenges.cloudflare.com"

def challengePlatformPrefix : Text := "/cdn-cgi/challenge-platform/"

def isChallengeDocument (cfMitigated host path : Text) : Bool :=
  let cf := rustTrim cfMitigated
  (!cf.isEmpty && eqCI cf "challenge") || eqCI host challengeHost ||
    challengePlatformPrefix.isPrefixOf path

/-- The classification of a response: `parseUrl` gives the host and the path of a URL. -/
def classify (parseUrl : Text → Option (Text × Text)) (cfMitigated finalUrl : Text) : Bool :=
  let (host, path) := (parseUrl finalUrl).getD ([], [])
  isChallengeDocument cfMitigated host path

variable {deps : Deps}

def isChallenge (deps : Deps) (up : Upstream) (finalUrl : Text) : Bool :=
  deps.isChallengeDocument ((header up.headers "cf-mitigated").getD []) finalUrl

/-! ## The marker in the kernel's response -/

def compatHeader : Text := "X-ZP-Challenge-Compat"

theorem values_compat_buildResponseHeaders (headers : List (Text × Text)) (finalUrl : Text)
    (armed : Bool) :
    (buildResponseHeaders deps headers finalUrl armed).values compatHeader =
      (acceptedHeaders headers).values compatHeader ++
        if armed && deps.isChallengeDocument
          ((header headers "cf-mitigated").getD []) finalUrl then ["1".toList] else [] := by
  have hcookie (h : Headers) (setCookies : List Text) :
      (if setCookies.isEmpty then h
        else h.append "X-ZP-Set-Cookie" ("\t".toList.intercalate setCookies)).values
          compatHeader = h.values compatHeader := by
    split
    · rfl
    · exact values_append_of_ne (by decide)
  have hmark (h : Headers) (b : Bool) :
      (if b then h.append compatHeader "1" else h).values compatHeader =
        h.values compatHeader ++ if b then ["1".toList] else [] := by
    cases b
    · exact (append_nil _).symm
    · have hadded : added compatHeader (compatHeader, "1") = some "1" := by
        decide
      rw [if_pos rfl, values_append, hadded]
      rfl
  exact (hmark _ _).trans (congrArg (· ++ _) (hcookie _ _))

theorem values_compat_kernelResponse {finalUrl : Text} {armed : Bool} {up : Upstream}
    {r : Response} (h : kernelResponse deps finalUrl armed up = some r) :
    r.headers.values compatHeader = (acceptedHeaders up.headers).values compatHeader ++
      if armed && isChallenge deps up finalUrl then ["1".toList] else [] := by
  obtain ⟨hs, hnamed, hvalues⟩ := exists_buildResponseHeaders h
  rw [hvalues _ (by decide), values_compat_buildResponseHeaders,
    values_acceptedHeaders_congr (hnamed compatHeader (by decide)),
    header_congr (hnamed "cf-mitigated" (by decide))]
  rfl

end Kernel

namespace Worker

open Kernel

/-! ## The policy -/

/-- What the policy depends on besides the response. -/
structure Deployment where
  /-- The host and the path of a URL, with its query (`parse_url` of the kernel). -/
  parseUrl : Text → Option (Text × Text)
  /-- The proxy's own origin for sockets. -/
  ws : Text
  /-- The origins of the relays and of the gateway. -/
  origins : List Text
  /-- The source of the frames of other sites, after a space, or nothing. -/
  sites : Text

/-- The policy up to the sources that a challenge adds. -/
def scriptSources : Text :=
  "default-src 'none'; script-src 'self' 'unsafe-inline' 'unsafe-eval' 'wasm-unsafe-eval' blob:"

def challengeOrigin : Text := "https://challenges.cloudflare.com"

/-- A set of texts with one more. -/
def addSource (sources : List Text) (s : Text) : List Text :=
  if sources.contains s then sources else sources ++ [s]

/-- `fixedCSP`. -/
def fixedCSP (d : Deployment) (armed : Bool) : Text :=
  let cf := if armed then ' ' :: challengeOrigin else []
  let connect := d.origins.foldl addSource ["'self'", d.ws]
  let connect := if armed then addSource connect challengeOrigin else connect
  scriptSources ++ cf ++ [';'] ++
    (" style-src 'self' 'unsafe-inline' blob: data:; img-src 'self' blob: data:; " ++
      "font-src 'self' blob: data:; media-src 'self' blob: data:; connect-src ").toList ++
    " ".toList.intercalate connect ++ " blob: data:; frame-src 'self' blob: data:" ++
    d.sites ++ cf ++ "; child-src 'self' blob: data:" ++ d.sites ++ cf ++
    ("; worker-src 'self' blob:; object-src 'none'; base-uri 'none'; form-action 'self'; " ++
      "manifest-src 'self'; report-uri /zp/api/csp-report").toList

/-- The worker with the policy and the classifier of the source. -/
def Env.deploy (d : Deployment) (env : Env) : Env :=
  { env with
    kernel := { env.kernel with isChallengeDocument := classify d.parseUrl }
    proxiedCSP := Worker.fixedCSP d
    fixedCSP := Worker.fixedCSP { d with origins := [], sites := [] } false }

/-- The policy of a response lets challenge pages run their scripts. -/
def Relaxed (h : Headers) : Prop :=
  ∃ v, h.get "Content-Security-Policy" = some v ∧ scriptSources ++ ' ' :: challengeOrigin <+: v

theorem fixedCSP_true (d : Deployment) :
    scriptSources ++ ' ' :: challengeOrigin <+: fixedCSP d true := by
  simp only [fixedCSP, append_assoc]
  exact (prefix_append_right_inj scriptSources).2 (prefix_append (' ' :: challengeOrigin) _)

theorem fixedCSP_false (d : Deployment) : scriptSources ++ [';'] <+: fixedCSP d false := by
  simp only [fixedCSP, Bool.false_eq_true, if_false, append_assoc, nil_append]
  exact (prefix_append_right_inj scriptSources).2 (prefix_append [';'] _)

theorem not_prefix_both {v : Text} (hplain : scriptSources ++ [';'] <+: v) :
    ¬ scriptSources ++ ' ' :: challengeOrigin <+: v := by
  intro hrel
  -- The policy goes on with a semicolon where the relaxed one has a space.
  have hle : (scriptSources ++ [';']).length ≤ (scriptSources ++ ' ' :: challengeOrigin).length := by
    rw [length_append, length_append]
    exact Nat.add_le_add_left (Nat.succ_le_succ (Nat.zero_le _)) _
  have hsep := (prefix_append_right_inj scriptSources).1
    (prefix_of_prefix_length_le hplain hrel hle)
  exact absurd (cons_prefix_cons.1 hsep).1 (by decide)

theorem prefix_normalize {p s : Text} (hhead : p.head?.any isHttpWhitespace = false)
    (hlast : p.getLast?.any isHttpWhitespace = false) (h : p <+: s) : p <+: normalize s := by
  obtain ⟨a, b, hs, ha, hb⟩ := exists_stripBoth isHttpWhitespace s
  obtain ⟨t, ht⟩ := h
  rcases eq_nil_or_concat p with rfl | ⟨w, e, rfl⟩
  · exact nil_prefix
  have hnil : a = [] := by
    cases a with
    | nil => rfl
    | cons x a =>
      have hx : (w.concat e).head? = some x := by
        rw [concat_eq_append] at ht ⊢
        cases w with
        | nil | cons y w => exact congrArg head? (ht.trans hs)
      rw [hx, Option.any_some, ha x (.head _)] at hhead
      cases hhead
  rw [hnil, nil_append] at hs
  rcases prefix_or_prefix_of_prefix ⟨t, ht⟩ ⟨b, hs.symm⟩ with hp | ⟨y, hy⟩
  · exact hp
  -- Were a part `y` of it stripped, its last character would be white space.
  have hyb : y <+: b := by
    have hcancel : stripBoth isHttpWhitespace s ++ (y ++ t) = stripBoth isHttpWhitespace s ++ b := by
      rw [← append_assoc, hy, ht, ← hs]
    exact ⟨t, append_cancel_left hcancel⟩
  rcases eq_nil_or_concat y with rfl | ⟨y, f, rfl⟩
  · rw [append_nil] at hy
    exact hy ▸ prefix_rfl
  · rw [← hy, concat_eq_append, ← append_assoc, getLast?_concat, Option.any_some,
      hb f (hyb.mem (by simp))] at hlast
    cases hlast

variable {env : Env} {d : Deployment} {h : Headers}

theorem values_csp_applyZPSecurityHeaders (env : Env) (h : Headers) (req : Option Request)
    (targetUrl : Text) :
    ∃ policies, (applyZPSecurityHeaders env h req targetUrl).values
      "Content-Security-Policy" = [normalize (", ".toList.intercalate
        (env.proxiedCSP (env.challengeCompat && h.get compatHeader == some "1".toList) ::
          policies))] := by
  have hrefresh (h : Headers) (b : Bool) (v : Text) :
      (if b then h else h.set "Refresh" v).values "Content-Security-Policy" =
        h.values "Content-Security-Policy" := by
    cases b
    · exact values_set_of_ne (by decide)
    · rfl
  refine ⟨env.trustedTypesPolicies (if isHTMLResponse h then
    (h.get "Content-Security-Policy").getD [] else []), ?_⟩
  rw [applyZPSecurityHeaders, values_applyCORS (by decide), values_set_of_ne (by decide),
    values_set_of_ne (by decide), hrefresh, values_set_self]
  rfl

theorem relaxed_iff_get (req : Option Request) (targetUrl : Text) :
    Relaxed (applyZPSecurityHeaders (env.deploy d) h req targetUrl) ↔
      env.challengeCompat ∧ h.get compatHeader = some "1".toList := by
  obtain ⟨policies, hv⟩ := values_csp_applyZPSecurityHeaders (env.deploy d) h req targetUrl
  have hlead (p policy : Text) (hp : p <+: policy) :
      p <+: ", ".toList.intercalate (policy :: policies) := by
    cases policies with
    | nil => exact hp.trans (intercalate_singleton ▸ prefix_rfl)
    | cons q policies => exact hp.trans (intercalate_cons_cons ▸
        (append_assoc policy _ _ ▸ prefix_append policy _))
  rw [Relaxed, get_eq_some hv, ← beq_iff_eq (a := h.get compatHeader), ← Bool.and_eq_true]
  change (∃ v, some (normalize (", ".toList.intercalate (fixedCSP d (env.challengeCompat &&
    h.get compatHeader == some "1".toList) :: policies))) = some v ∧ _) ↔ _
  cases env.challengeCompat && h.get compatHeader == some "1".toList with
  | true =>
    refine ⟨fun _ => rfl, fun _ => ⟨_, rfl, ?_⟩⟩
    exact prefix_normalize (by decide) (by decide) (hlead _ _ (fixedCSP_true d))
  | false =>
    refine ⟨?_, nofun⟩
    rintro ⟨v, hv, hrel⟩
    cases hv
    have hplain := prefix_normalize (by decide) (by decide) (hlead _ _ (fixedCSP_false d))
    exact (not_prefix_both hplain hrel).elim

/-! ## Who can relax the policy -/

/-- The server sends nothing that is taken for the kernel's marker: on a challenge it sends no
    header of that name, and otherwise none with the combined value `1`. -/
def Unforged (deps : Kernel.Deps) (up : Upstream) (u : Text) : Prop :=
  if isChallenge deps up u then (acceptedHeaders up.headers).values compatHeader = []
  else received up compatHeader ≠ some "1".toList

instance (deps : Kernel.Deps) (up : Upstream) (u : Text) : Decidable (Unforged deps up u) :=
  inferInstanceAs (Decidable (if isChallenge deps up u then
    (acceptedHeaders up.headers).values compatHeader = []
    else received up compatHeader ≠ some "1"))

theorem intercalate_concat_eq_one_iff (vs : List Text) :
    ", ".toList.intercalate (vs ++ ["1".toList]) = "1" ↔ vs = [] := by
  cases vs with
  | nil => exact ⟨fun _ => rfl, fun _ => rfl⟩
  | cons v vs =>
    refine ⟨fun h => ?_, nofun⟩
    obtain ⟨w, ws, hws⟩ := exists_cons_of_ne_nil (l := vs ++ ["1".toList]) (by simp)
    have := congrArg length h
    rw [cons_append, hws, intercalate_cons_cons, length_append, length_append] at this
    have h1 : "1".toList.length = 1 := rfl
    have h2 : ", ".toList.length = 2 := rfl
    omega

theorem get_compat_kernelResponse {deps : Kernel.Deps} {u : Text} {armed : Bool} {up : Upstream}
    {r : Response} (hr : kernelResponse deps u armed up = some r) :
    r.headers.get compatHeader = some "1".toList ↔
      if armed && isChallenge deps up u then (acceptedHeaders up.headers).values compatHeader = []
      else received up compatHeader = some "1".toList := by
  have hv := values_compat_kernelResponse hr
  by_cases hc : (armed && isChallenge deps up u)
  · rw [if_pos hc] at hv
    rw [if_pos hc, ← intercalate_concat_eq_one_iff, Headers.get, hv]
    split
    · rename_i hnil
      simp at hnil
    · rename_i hcons
      rw [← hcons, Option.some_inj]
  · rw [if_neg hc, append_nil] at hv
    rw [if_neg hc, get_congr hv, received]

theorem not_relaxed_safeError (env : Env) (d : Deployment) (code : Text) (status : Nat) (url : Text) :
    ¬ Relaxed (safeError (env.deploy d) code status url).headers := by
  have hv : (safeError (env.deploy d) code status url).headers.get "Content-Security-Policy" =
      some (fixedCSP { d with origins := [], sites := [] } false) := get_eq_some rfl
  rintro ⟨v, hget, hrel⟩
  rw [hv] at hget
  cases hget
  have hplain := fixedCSP_false { d with origins := [], sites := [] }
  exact not_prefix_both hplain hrel

theorem relaxed_congr {h h' : Headers} (hv : h.values "Content-Security-Policy" =
    h'.values "Content-Security-Policy") : Relaxed h ↔ Relaxed h' := by
  rw [Relaxed, Relaxed, get_congr hv]

/-- What the server and the kernel can be asked for: a document that is not streamed and that the
    transformer takes keeps its policy, and another one gets a strict policy. -/
def Fair (env : Env) (t : Transformer) (up : Upstream) (r : Response) (u : Text) : Prop :=
  (Streams env t r u ∨ Malformed env t r u → isChallenge env.kernel up u = false) ∧
    (¬(Streams env t r u ∨ Malformed env t r u) → Unforged env.kernel up u)

theorem relaxed_served_iff {t : Transformer} {req : Option Request} {up : Upstream} {r r' : Response}
    {u : Text} (hd : Delivered (env.deploy d) req up r u)
    (hs : answer (transformDocumentResponse (env.deploy d) t r u) = .response r') :
    Relaxed r'.headers ↔ Relaxed r.headers ∧
      ¬(Streams (env.deploy d) t r u ∨ Malformed (env.deploy d) t r u) := by
  have hcompat : r.headers.values compatHeader = [] := by
    obtain ⟨n, r₀, -, -, -, rfl⟩ := hd
    change (applyZPSecurityHeaders _ _ _ _).values compatHeader = []
    rw [values_applyZPSecurityHeaders (by decide), stripHeaders,
      values_foldl_delete _ (by decide)]
    exact values_delete_self
  have hmalformed : Malformed (env.deploy d) t r u → ¬ Relaxed r'.headers := by
    intro hm
    rw [Malformed] at hm
    rw [hm] at hs
    rw [relaxed_congr (values_answer hs (by decide))]
    exact not_relaxed_safeError env d _ _ _
  cases headed_answer hs with
  | own hown hm => exact iff_of_false (hmalformed hm) fun h => h.2 (.inr hm)
  | once honce hno =>
    by_cases hm : Malformed (env.deploy d) t r u
    · exact iff_of_false (hmalformed hm) fun h => h.2 (.inr hm)
    · rw [relaxed_congr (honce _ (by decide))]
      exact ⟨fun h => ⟨h, fun hor => hor.elim hno hm⟩, And.left⟩
  | twice h hkept hout hstreams =>
    refine iff_of_false (fun hrel => ?_) fun h => h.2 (.inl hstreams)
    rw [relaxed_congr (hout _ (by decide)), relaxed_iff_get] at hrel
    have hnone : h.get compatHeader = none := get_eq_none (by rw [hkept _ (by decide), hcompat])
    rw [hnone] at hrel
    cases hrel.2

/-- A document is served with the relaxed policy exactly on an armed tab and for what the kernel
    calls a challenge, if and only if on an armed tab the server forges no marker for a document
    that keeps its policy, and a document that is streamed is no challenge. -/
theorem relaxed_iff_challenge_iff (env : Env) (d : Deployment) (t : Transformer) (launcher : Served)
    (req : Option Request) (route : Route) {up : Upstream} {r r' : Response} {u : Text}
    (hf : fetchDocument (env.deploy d) req route = .upstream up r u)
    (hs : proxyDocument (env.deploy d) t launcher req route = .response r') :
    (Relaxed r'.headers ↔ env.challengeCompat ∧ isChallenge (env.deploy d).kernel up u) ↔
      (env.challengeCompat → Fair (env.deploy d) t up r u) := by
  have hd := Delivered.of_fetchDocument hf
  rw [proxyDocument_of_upstream hf] at hs
  rw [relaxed_served_iff hd hs, Fair]
  obtain ⟨n, r₀, -, hr₀, -, rfl⟩ := hd
  have hget := get_compat_kernelResponse hr₀
  generalize (Streams _ t _ u ∨ Malformed _ t _ u) = strict
  change (Relaxed (applyZPSecurityHeaders _ _ _ _) ∧ _ ↔ _) ↔ _
  rw [relaxed_iff_get, hget, Unforged]
  change (((_ ∧ if env.challengeCompat && _ then _ else _) ∧ _) ↔ _) ↔ _
  cases env.challengeCompat with
  | false => simp
  | true =>
    by_cases hstrict : strict
    · cases isChallenge (env.deploy d).kernel up u <;> simp [hstrict]
    · cases isChallenge (env.deploy d).kernel up u <;> simp [hstrict]

/-- A world with an armed tab, in which every request gets the same answer. -/
def armedServer (up : Upstream) : Env :=
  { singleServer up with challengeCompat := true, proxiedCSP := fun _ => [] }

/-- A deployment in which every URL has the host of a shop. -/
def shopDeployment : Deployment := ⟨fun _ => some ("shop.test", "/"), "wss://proxy.test", [], []⟩

/-- A page of the shop: XHTML, which is not streamed. -/
def shopAnswer (headers : List (Text × Text)) : Upstream where
  status := 200
  reason := "OK"
  headers := ("Content-Type", "application/xhtml+xml") :: headers
  body := ⟨[[60, 104, 116, 109, 108, 47, 62]], false⟩
  isHead := false

/-- On a page that forges nothing the law holds. -/
theorem shop_relaxed_iff_challenge :
    ∃ r u r', fetchDocument ((armedServer (shopAnswer [])).deploy shopDeployment) none
        (.entry "https://shop.test/" .accepted) = .upstream (shopAnswer []) r u ∧
      proxyDocument ((armedServer (shopAnswer [])).deploy shopDeployment) idleTransformer
        .networkError none (.entry "https://shop.test/" .accepted) = .response r' ∧
      (Relaxed r'.headers ↔ true ∧
        isChallenge ((armedServer (shopAnswer [])).deploy shopDeployment).kernel (shopAnswer []) u) := by
  have hf : fetchDocument ((armedServer (shopAnswer [])).deploy shopDeployment) none
      (.entry "https://shop.test/" .accepted) = .upstream (shopAnswer []) _ _ := rfl
  have hs : proxyDocument ((armedServer (shopAnswer [])).deploy shopDeployment) idleTransformer
      .networkError none (.entry "https://shop.test/" .accepted) = .response _ := rfl
  exact ⟨_, _, _, hf, hs, (relaxed_iff_challenge_iff _ _ _ _ _ _ hf hs).2 fun _ =>
    ⟨fun _ => by decide, fun _ => by decide⟩⟩

/-- A page that sends the marker itself is served with the relaxed policy, though it is no
    challenge. -/
theorem forged_marker_relaxes :
    ∃ up r u r', fetchDocument ((armedServer up).deploy shopDeployment) none
        (.entry "https://shop.test/" .accepted) = .upstream up r u ∧
      proxyDocument ((armedServer up).deploy shopDeployment) idleTransformer .networkError none
        (.entry "https://shop.test/" .accepted) = .response r' ∧
      Relaxed r'.headers ∧
        isChallenge ((armedServer up).deploy shopDeployment).kernel up u = false := by
  have hf : fetchDocument ((armedServer (shopAnswer [("X-ZP-Challenge-Compat", "1")])).deploy
      shopDeployment) none (.entry "https://shop.test/" .accepted) = .upstream _ _ _ := rfl
  have hs : proxyDocument ((armedServer (shopAnswer [("X-ZP-Challenge-Compat", "1")])).deploy
      shopDeployment) idleTransformer .networkError none (.entry "https://shop.test/" .accepted) =
      .response _ := rfl
  refine ⟨shopAnswer [("X-ZP-Challenge-Compat", "1")], _, _, _, hf, hs, ?_, by decide⟩
  rw [proxyDocument_of_upstream hf] at hs
  refine (relaxed_served_iff (Delivered.of_fetchDocument hf) hs).2 ⟨?_, ?_⟩
  · exact (relaxed_iff_get _ _).2 ⟨rfl, rfl⟩
  rintro (⟨-, out, hout⟩ | hm)
  · cases hout
  · cases congrArg (Option.map Response.status) hm

end Worker

end ZeroProxy
