import ZeroProxy.Worker.FetchProbe
import ZeroProxy.Worker.RequestFields

/-!
# Requests to other sites

Which cookies the requests of a document carry to other sites, and what `Sec-Fetch-Site` says of
them. The worker tells the jar that a request is cross-site only when the document has an opaque
origin, and never for a WebSocket. The header is made from the URL of a hop, not of the chain.
-/

namespace ZeroProxy.Worker.Fetch

open Http List Text

variable (urls : Urls)

/-- What the cookies of a request depend on, and whether it is a navigation of the top level
    with a safe method. -/
structure CookieRead where
  url : Line
  jar : CookieJar
  now : Int
  allowed : Bool
  crossSite : Bool
  safeNavigation : Bool

def CookieRead.cookies (c : CookieRead) : List Cookie :=
  if c.allowed then (cookiesForURL urls.cookies c.jar c.now c.url.1 ⟨true, c.crossSite⟩).2 else []

def isSafeMethod (method : Text) : Bool :=
  ["GET".toList, "HEAD", "OPTIONS", "TRACE"].contains method

def Sent.read (s : Sent) : CookieRead where
  url := s.url
  jar := s.jar
  now := s.now
  allowed := credentialsAllowed urls s.url s.options
  crossSite := s.options.initiatorOpaque
  safeNavigation := s.options.kind == .document false && isSafeMethod s.options.method

/-- The read of a WebSocket's handshake (`openRuntimeStream`), at the address with the scheme of
    HTTP. -/
def socketRead (url : Line) (jar : CookieJar) (now : Int) : CookieRead where
  url := url
  jar := jar
  now := now
  allowed := true
  crossSite := false
  safeNavigation := false

/-- A document may not have the cookie sent along with a request to another site. -/
def withheld (c : CookieRead) (r : Cookie) : Bool :=
  r.sameSite == "strict" || (r.sameSite == "lax" && !c.safeNavigation)

variable (cross : CookieUrl → Bool)

/-- A request with the given cookies respects `SameSite`, where `cross` tells the URLs that are
    cross-site to the document (of another scheme or registrable domain). -/
def Respects (c : CookieRead) (cookies : List Cookie) : Prop :=
  ∀ u, urls.cookies.parseUrl c.url.1 = some u → cross u → ∀ r ∈ cookies, withheld c r = false

/-- The jar has no cookie for the request that is to be withheld, or the jar is told that the
    request is cross-site, or the request carries no cookies. -/
def Spared (c : CookieRead) : Prop :=
  ∀ u, urls.cookies.parseUrl c.url.1 = some u → cross u →
    c.crossSite ∨ c.allowed = false ∨ ∀ r ∈ c.jar.records, expired r c.now = false →
      admits u ⟨true, false⟩ r → withheld c r = false

variable {urls} {cross} {w : World} {st : State} {u : Line} {o : Options}

theorem admits_iff {v : CookieUrl} {r : Cookie} {x : Bool} :
    admits v ⟨true, x⟩ r ↔ (x → r.sameSite = "none") ∧ admits v ⟨true, false⟩ r := by
  cases x with
  | false => simp
  | true =>
    rw [admits, admits]
    simp [and_assoc]

theorem withheld_of_none {c : CookieRead} {r : Cookie} (h : r.sameSite = "none") :
    withheld c r = false := by
  have hs : ("none" == "strict".toList) = false := by decide
  have hl : ("none" == "lax".toList) = false := by decide
  rw [withheld, h, hs, hl]
  rfl

theorem respects_cookies_iff (c : CookieRead) :
    Respects urls cross c (c.cookies urls) ↔ Spared urls cross c := by
  refine forall_congr' fun v => forall_congr' fun hv => forall_congr' fun _ => ?_
  rw [CookieRead.cookies]
  cases c.allowed with
  | false => simp
  | true =>
    rw [if_pos rfl]
    simp only [mem_cookiesForURL hv, Bool.true_eq_false, false_or]
    constructor
    · intro h
      by_cases hx : c.crossSite
      · exact .inl hx
      · refine .inr fun r hr he ha => h r ⟨hr, he, ?_⟩
        exact admits_iff.2 ⟨fun h => absurd h hx, ha⟩
    · rintro (hx | h) r ⟨hr, he, ha⟩
      · exact withheld_of_none ((admits_iff.1 ha).1 hx)
      · exact h r hr he (admits_iff.1 ha).2

/-! ## All requests -/

/-- What holds of the options of a hop holds of the next. -/
structure Carried (urls : Urls) (I : Options → Prop) : Prop where
  taint : ∀ {u o}, I o → I (taint urls u o)
  restart : ∀ {o}, I o → I { o with criticalRestart := true }
  redirect : ∀ {u next status o}, I o → I (redirectOptions urls u next status o)

/-- The request of a hop is sent with options for which `I` holds. -/
def SentUnder (urls : Urls) (w : World) (I : Options → Prop) (k : Hop) : Prop :=
  ∃ st u o, I o ∧ k.sent = (send urls w st u o).2

variable {I : Options → Prop}

theorem Carried.attempt (hI : Carried urls I) (ho : I o) :
    (∀ k ∈ (attempt urls w st u o).2.1, SentUnder urls w I k) ∧
      ∀ v o' r, (attempt urls w st u o).2.2 = .inr (v, o', r) → I o' := by
  have hone {past : List Sent} : ∀ k ∈ [(⟨past, (send urls w st u o).2⟩ : Hop)],
      SentUnder urls w I k := fun k hk => mem_singleton.1 hk ▸ ⟨st, u, o, ho, rfl⟩
  rw [Fetch.attempt]
  dsimp only
  split
  · exact ⟨hone, fun v o' r h => by cases h⟩
  split_ifs
  · split
    · exact ⟨hone, fun v o' r h => by cases h⟩
    -- The restart sends a second request.
    have htwo {v : Line} {st' : State} {past : List Sent} :
        ∀ k ∈ [(⟨st.log, (send urls w st u o).2⟩ : Hop),
          ⟨past, (send urls w st' v { o with criticalRestart := true }).2⟩],
          SentUnder urls w I k := by
      intro k hk
      rcases mem_cons.1 hk with rfl | hk
      · exact ⟨st, u, o, ho, rfl⟩
      · exact mem_singleton.1 hk ▸ ⟨st', v, _, hI.restart ho, rfl⟩
    split
    · exact ⟨htwo, fun v o' r h => by cases h⟩
    · exact ⟨htwo, fun v o' r h => by cases h; exact hI.restart ho⟩
  · exact ⟨hone, fun v o' r h => by cases h; exact ho⟩

theorem Carried.hopStep (hI : Carried urls I) (ho : I o) {target : Text} {st' : State}
    {hops : List Hop} {step : Step} (h : hopStep urls w st target o = (st', hops, step)) :
    (∀ k ∈ hops, SentUnder urls w I k) ∧
      ∀ location v o' status, step = .redirects location v o' status → I o' := by
  rw [Fetch.hopStep] at h
  split at h
  · cases h
    exact ⟨fun k hk => absurd hk not_mem_nil, fun _ _ _ _ h => by cases h⟩
  next v _ =>
    dsimp only at h
    split at h
    · cases h
      exact ⟨fun k hk => absurd hk not_mem_nil, fun _ _ _ _ h => by cases h⟩
    next st₁ _ =>
      have hattempt := @Carried.attempt urls w st₁ v (Fetch.taint urls v o) I hI (hI.taint ho)
      split at h
      · next heq =>
        rw [heq] at hattempt
        cases h
        exact ⟨hattempt.1, fun _ _ _ _ h => by cases h⟩
      next v' o' r heq =>
      rw [heq] at hattempt
      cases h
      refine ⟨hattempt.1, fun location v'' o'' status hstep => ?_⟩
      rcases replyStep_cases v' o' r with ⟨_, h, _⟩ | ⟨_, h, _⟩
      · rw [h] at hstep
        cases hstep
      · rw [h] at hstep
        cases hstep
        exact hattempt.2 _ _ _ rfl

theorem Carried.transportFetchHop (hI : Carried urls I) (left : Nat) {target : Text} (ho : I o) :
    ∀ k ∈ (transportFetchHop urls w left st target o).2.1, SentUnder urls w I k := by
  induction left using Nat.strong_induction_on generalizing st target o with
  | _ left ih =>
    rw [transportFetchHop.eq_def]
    obtain ⟨⟨st', hops, step⟩, hx⟩ : ∃ x, Fetch.hopStep urls w st target o = x := ⟨_, rfl⟩
    obtain ⟨hsent, hnext⟩ := hI.hopStep ho hx
    rw [hx]
    cases step with
    | ends outcome => exact hsent
    | redirects location v o' status =>
      cases left with
      | zero => exact hsent
      | succ left =>
        dsimp only
        cases nextURL urls location v o' with
        | none => exact hsent
        | some next =>
          intro k hk
          rcases mem_append.1 hk with hk | hk
          · exact hsent k hk
          · exact ih left (Nat.lt_succ_self _) (hI.redirect (hnext _ _ _ _ rfl)) k hk

theorem Carried.transportFetch (hI : Carried urls I) {target : Text} {q : Init}
    (hq : I (q.options urls)) :
    ∀ k ∈ (transportFetch urls w st target q).2.1, SentUnder urls w I k := by
  intro k hk
  rw [Fetch.transportFetch] at hk
  split at hk
  · cases hk
  · cases hb : q.body with
    | unreadable | tooLarge => rw [hb] at hk; cases hk
    | accepted => rw [hb] at hk; exact hI.transportFetchHop 20 hq k hk

theorem cookies_send : (send urls w st u o).2.cookies =
    ((send urls w st u o).2.read urls).cookies urls := by
  have hcookies : (requestCookies urls st.jar (w.clock st.log.length) u o).2 =
      ((send urls w st u o).2.read urls).cookies urls := by
    rw [requestCookies, CookieRead.cookies]
    change _ = if credentialsAllowed urls u o then _ else _
    split_ifs <;> rfl
  exact hcookies

/-- Every request that the worker sends for `transportFetch`, preflights apart (they have no
    cookies), and every handshake respects `SameSite` exactly when it is spared, whatever the
    cross-site URLs are. -/
theorem respects_iff (urls : Urls) (w : World) (st : State) (target : Text) (q : Init)
    (cross : CookieUrl → Bool) :
    (∀ k ∈ (transportFetch urls w st target q).2.1,
      Respects urls cross (k.sent.read urls) k.sent.cookies ↔
        Spared urls cross (k.sent.read urls)) ∧
    ∀ url, Respects urls cross (socketRead url st.jar (w.clock st.log.length))
        (cookiesForURL urls.cookies st.jar (w.clock st.log.length) url.1 ⟨true, false⟩).2 ↔
      Spared urls cross (socketRead url st.jar (w.clock st.log.length)) := by
  refine ⟨fun k hk => ?_, fun url => respects_cookies_iff _⟩
  have hall : Carried urls fun _ => True := ⟨id, id, id⟩
  obtain ⟨st', u, o, _, hsent⟩ := hall.transportFetch (w := w) trivial k hk
  rw [hsent, cookies_send]
  exact respects_cookies_iff _

/-! ## A request of another site -/

/-- The sites `a.test` and `b.test`. -/
def twoSites : CookieEnv where
  parseUrl t := if t = "https://a.test" then some ⟨"https:", "a.test", "/"⟩
    else if t = "https://b.test" then some ⟨"https:", "b.test", "/"⟩
    else none
  dateParse _ := none

/-- A `Strict` cookie of `b.test`. -/
def strictCookie : Cookie where
  name := "sid"
  value := "1"
  domain := "b.test"
  hostOnly := true
  path := "/"
  secure := true
  httpOnly := true
  sameSite := "strict"
  expires := none
  maxAge := none
  creation := 0
  session := true

/-- A world in which every request fails. -/
def offline : World where
  ready _ := true
  network _ _ := none
  clock _ := 0
  others _ := quiet
  missesHints _ _ := false

def siteUrls : Urls := { plainUrls with cookies := twoSites }

def strictJar : CookieJar := ⟨[strictCookie], false⟩

/-- A `fetch` of a page of `a.test` that includes credentials. -/
def includingFetch : Init :=
  { fetchWith "accept" "*/*" (by decide) with credentials := some .included }

/-- An image of a page of `a.test`. -/
def ownImage : Init :=
  { fetchWith "accept" "*/*" (by decide) with kind := .subresource, mode := .noCors }

theorem not_respects_of_sent {q : Init} (h : (transportFetch siteUrls offline ⟨strictJar, [], []⟩
      "https://b.test" q).2.1.any fun k => k.sent.url.1 == "https://b.test" &&
        k.sent.cookies.any (withheld (k.sent.read siteUrls))) :
    ∃ k ∈ (transportFetch siteUrls offline ⟨strictJar, [], []⟩ "https://b.test" q).2.1,
      ¬Respects siteUrls (·.hostname != "a.test") (k.sent.read siteUrls) k.sent.cookies := by
  obtain ⟨k, hk, hsent⟩ := any_eq_true.1 h
  rw [Bool.and_eq_true, beq_iff_eq, any_eq_true] at hsent
  obtain ⟨hurl, r, hr, hw⟩ := hsent
  refine ⟨k, hk, fun h => ?_⟩
  have hsite : siteUrls.cookies.parseUrl k.sent.url.1 = some ⟨"https:", "b.test", "/"⟩ := by
    rw [hurl]
    rfl
  exact absurd hw (Bool.eq_false_iff.1 (h _ hsite (by decide) r hr))

/-- A page of `a.test` fetches an address of `b.test` with credentials, or shows an image of it,
    and the request has the `Strict` cookie. -/
theorem strict_cookie_sent :
    (∃ k ∈ (transportFetch siteUrls offline ⟨strictJar, [], []⟩ "https://b.test" includingFetch).2.1,
      ¬Respects siteUrls (·.hostname != "a.test") (k.sent.read siteUrls) k.sent.cookies) ∧
    ∃ k ∈ (transportFetch siteUrls offline ⟨strictJar, [], []⟩ "https://b.test" ownImage).2.1,
      ¬Respects siteUrls (·.hostname != "a.test") (k.sent.read siteUrls) k.sent.cookies :=
  ⟨not_respects_of_sent (by decide), not_respects_of_sent (by decide)⟩

/-! ## Fetch metadata

The standard judges all URLs of the chain so far, the worker the URL of the hop alone. -/

variable (urls : Urls) (sameSite : Line → Bool) (o : Options) (before : List Line) (u : Line)

/-- A URL is of the origin of the document that makes the request. -/
def ownOrigin : Bool :=
  !o.initiatorOpaque && (urls.cookies.parseUrl o.documentUrl.1).isSome &&
    (urls.cookies.parseUrl u.1).isSome && urls.origin o.documentUrl == urls.origin u

/-- A URL is of the document's site by the worker's rule for domains. -/
def ownDomain : Bool :=
  !o.initiatorOpaque && (urls.cookies.parseUrl o.documentUrl.1).any fun d =>
    (urls.cookies.parseUrl u.1).any fun v =>
      d.protocol == v.protocol && registrableDomain d.hostname == registrableDomain v.hostname

/-- The value for the URLs of a request by Fetch metadata, given which URLs are of the site of
    its origin: none if that is opaque. -/
def standardSite (chain : List Line) : Text :=
  if chain.all (ownOrigin urls o) then "same-origin"
  else if chain.all fun v => ownOrigin urls o v || sameSite v then "same-site"
  else "cross-site"

/-- The URL of a hop stands for those before it: a URL of the document's origin comes after no
    other, and another one is of the document's domain exactly if all are of its site. -/
def StandsFor : Prop :=
  if ownOrigin urls o u then ∀ v ∈ before, ownOrigin urls o v
  else ownDomain urls o u ↔ ∀ v ∈ before ++ [u], ownOrigin urls o v ∨ sameSite v

/-- What is the same on every hop. -/
def Alike (o' : Options) : Prop :=
  o'.kind = o.kind ∧ o'.documentUrl = o.documentUrl ∧ o'.initiatorOpaque = o.initiatorOpaque

variable {urls sameSite o before u}

theorem secFetchSite_eq {o' : Options} (ho : Alike o o') (hkind : isDocument o = false)
    (x : HeaderContext) : secFetchSite urls x u o' =
      if ownOrigin urls o u then "same-origin".toList
      else if ownDomain urls o u then "same-site" else "cross-site" := by
  obtain ⟨hk, hd, hopaque⟩ := ho
  have hsite : secFetchSite urls x u o' = if o.initiatorOpaque then "cross-site".toList
      else fetchSiteRelation urls o.documentUrl u := by
    rw [secFetchSite, hk, hd, hopaque]
    rw [isDocument] at hkind
    cases h : o.kind with
    | document f => rw [h] at hkind; cases hkind
    | _ => rfl
  rw [hsite, fetchSiteRelation, ownOrigin, ownDomain]
  cases o.initiatorOpaque with
  | true => rfl
  | false =>
    rw [if_neg Bool.false_ne_true]
    cases urls.cookies.parseUrl o.documentUrl.1 with
    | none => rfl
    | some d => cases urls.cookies.parseUrl u.1 with
      | none => rfl
      | some v =>
        refine if_congr ?_ rfl (if_congr ?_ rfl rfl)
        · simp [Subtype.ext_iff]
        · simp

theorem eq_standardSite_iff : (if ownOrigin urls o u then "same-origin".toList
      else if ownDomain urls o u then "same-site" else "cross-site") =
        standardSite urls sameSite o (before ++ [u]) ↔ StandsFor urls sameSite o before u := by
  have hab : "same-origin".toList ≠ "same-site" := by decide
  have hac : "same-origin".toList ≠ "cross-site" := by decide
  have hbc : "same-site".toList ≠ "cross-site" := by decide
  rw [standardSite, StandsFor]
  cases hu : ownOrigin urls o u with
  | true =>
    have hall : (before ++ [u]).all (ownOrigin urls o) ↔ ∀ v ∈ before, ownOrigin urls o v := by
      simp [hu]
    rw [if_pos rfl, if_pos rfl, ← hall]
    split_ifs with h
    · exact iff_of_true rfl h
    · exact iff_of_false hab h
    · exact iff_of_false hac h
  | false =>
    have hall : ¬ (before ++ [u]).all (ownOrigin urls o) := by simp [hu]
    have hsite : ((before ++ [u]).all fun v => ownOrigin urls o v || sameSite v) ↔
        ∀ v ∈ before ++ [u], ownOrigin urls o v ∨ sameSite v := by
      simp only [all_eq_true, Bool.or_eq_true]
    rw [if_neg Bool.false_ne_true, if_neg Bool.false_ne_true, ← hsite]
    split_ifs with h h' h'
    · exact iff_of_true rfl (iff_of_true h h')
    · exact iff_of_false hbc fun hiff => h' (hiff.1 h)
    · exact iff_of_false hbc.symm fun hiff => h (hiff.2 h')
    · exact iff_of_true rfl (iff_of_false h h')

theorem alike_of_mem {w : World} {st : State} {target : Text} {q : Init} {k : Hop}
    (hk : k ∈ (transportFetch urls w st target q).2.1) : Alike (q.options urls) k.sent.options := by
  have hcarried : Carried urls (Alike (q.options urls)) := ⟨id, id, id⟩
  obtain ⟨st', u, o, ho, hsent⟩ := hcarried.transportFetch ⟨rfl, rfl, rfl⟩ k hk
  rwa [hsent]

/-! ## The header that is sent -/

/-- The name of the header. -/
def siteName : Text := "sec-fetch-site"

/-- A `Sec-Fetch-Site` that the request comes with: a header of the page, or of the request that
    was intercepted. -/
def givenSite (x : HeaderContext) (o : Options) : Option Text :=
  (o.headers.get siteName).or (x.request.bind (·.get siteName))

variable {x : HeaderContext} {cookie : Text} {es l : List Field} {t : Bool}

theorem refuses_siteName (t own : Bool) : refuses t own siteName = !t := by
  cases t <;> cases own <;> decide

theorem fieldValues_siteName_pushAll {own : Bool} (hes : Plain es) (hl : Plain l) :
    fieldValues siteName (pushAll t own es l) =
      if fieldValues siteName es = [] ∧ t then (fieldValues siteName l).head?.toList
      else fieldValues siteName es := by
  rw [fieldValues_pushAll hes hl, refuses_siteName]
  simp

theorem fieldValues_siteName_filter {p : Field → Bool} (hl : Plain l)
    (hp : ∀ e, e.1 = siteName → p e) : fieldValues siteName (l.filter p) = fieldValues siteName l := by
  rw [fieldValues, fieldValues, filter_filter]
  refine congrArg _ (filter_congr fun e he => ?_)
  by_cases hname : lower e.1 = siteName
  · rw [hp e ((hl e he).2.symm.trans hname), Bool.and_true]
  · rw [beq_false_of_ne hname, Bool.false_and]

theorem fieldValues_siteName_withoutRange (noRange : Bool) (hl : Plain l) :
    fieldValues siteName (withoutRange noRange l) = fieldValues siteName l := by
  refine fieldValues_siteName_filter hl fun e he => ?_
  rw [he]
  cases noRange <;> decide

theorem fieldValues_siteName_entries {h : Headers} (hp : Plain h.list) :
    fieldValues siteName (entries h) = (h.get siteName).toList := by
  rw [fieldValues_entries hp (by decide), if_neg (by decide)]

theorem fieldValues_siteName_request (hx : ∀ r ∈ x.request, Plain r.list) :
    Plain (requestFields x) ∧
      fieldValues siteName (requestFields x) = (x.request.bind (·.get siteName)).toList := by
  rw [requestFields]
  cases hr : x.request with
  | none => exact ⟨fun _ h => absurd h not_mem_nil, rfl⟩
  | some r =>
    have hplain := plain_entries (hx r hr)
    refine ⟨(hplain.sublist filter_sublist).sublist filter_sublist, ?_⟩
    dsimp only
    rw [fieldValues_siteName_withoutRange _ (hplain.sublist filter_sublist),
      fieldValues_siteName_filter hplain fun e he => by rw [he]; decide,
      fieldValues_siteName_entries (hx r hr)]
    rfl

theorem fieldValues_siteName_given (t : Bool) (hp : Plain o.headers.list)
    (hx : ∀ r ∈ x.request, Plain r.list) :
    let es := pushAll t false (pushAll t false (pushAll t false
      (pushOnce t false [] ("user-agent", targetUserAgent))
      (withoutRange x.noRange (entries (controlHeaders urls x cookie u o)))) (requestFields x))
      [("sec-fetch-mode", secFetchMode x o), ("sec-fetch-dest", secFetchDest x o)]
    Plain es ∧ fieldValues siteName es = if t then (givenSite x o).toList else [] := by
  obtain ⟨hplainRequest, hrequest⟩ := fieldValues_siteName_request hx
  have hcontrol := plain_entries (@plain_controlHeaders urls x cookie u o hp)
  have hget : (controlHeaders urls x cookie u o).get siteName = o.headers.get siteName :=
    Headers.get_congr (values_controlHeaders_of_ne (by decide) (by decide) (by decide) (by decide))
  have hmeta : Defaults [("sec-fetch-mode", secFetchMode x o),
      ("sec-fetch-dest", secFetchDest x o)] := .of_all rfl
  have hranged : Plain (withoutRange x.noRange (entries (controlHeaders urls x cookie u o))) :=
    hcontrol.sublist filter_sublist
  intro es
  have h₁ := @plain_pushAll _ _ t false plain_userAgent hranged
  have h₂ := @plain_pushAll _ _ t false h₁ hplainRequest
  have hes : es = pushAll t false (pushAll t false (pushAll t false [("user-agent", targetUserAgent)]
      (withoutRange x.noRange (entries (controlHeaders urls x cookie u o)))) (requestFields x))
      [("sec-fetch-mode", secFetchMode x o), ("sec-fetch-dest", secFetchDest x o)] := by
    rw [← pushOnce_userAgent]
  rw [hes]
  refine ⟨plain_pushAll h₂ hmeta.plain, ?_⟩
  rw [fieldValues_siteName_pushAll h₂ hmeta.plain, fieldValues_siteName_pushAll h₁ hplainRequest,
    fieldValues_siteName_pushAll plain_userAgent hranged,
    fieldValues_siteName_withoutRange _ hcontrol,
    fieldValues_siteName_entries (plain_controlHeaders hp), hrequest, hget, givenSite]
  have hnone : fieldValues siteName [("user-agent", targetUserAgent)] = [] := by decide
  have hmode : fieldValues siteName [("sec-fetch-mode", secFetchMode x o),
      ("sec-fetch-dest", secFetchDest x o)] = [] := rfl
  rw [hnone, hmode]
  cases t with
  | false => simp
  | true =>
    cases o.headers.get siteName <;> cases x.request.bind (·.get siteName) <;> simp

theorem fieldValues_siteName_pushSite {given : Option Text} (hes : Plain es)
    (h : fieldValues siteName es = if t then given.toList else []) :
    fieldValues siteName (pushSite urls t x u o es) =
      if t then [given.getD (secFetchSite urls x u o)] else [] := by
  have hworker : Plain ((siteName, secFetchSite urls x u o) ::
      if storageAccess urls x u o then [("sec-fetch-storage-access", "active")] else []) := by
    split_ifs <;> exact (Defaults.of_all rfl).plain
  have hseen : seen es siteName ↔ t ∧ given.isSome := by
    rw [seen_iff hes, h]
    cases t <;> cases given <;> simp
  rw [pushSite]
  change fieldValues siteName (if seen es siteName then es else _) = _
  by_cases hgiven : seen es siteName
  · obtain ⟨rfl, hsome⟩ := hseen.1 hgiven
    obtain ⟨v, rfl⟩ := Option.isSome_iff_exists.1 hsome
    rw [if_pos hgiven, h]
    rfl
  · rw [if_neg hgiven]
    refine (fieldValues_siteName_pushAll hes hworker).trans ?_
    rw [h]
    cases t with
    | false => rfl
    | true =>
      have hnone : given = none := by simpa using mt (fun h => hseen.2 ⟨rfl, h⟩) hgiven
      rw [hnone]
      rfl

/-- The header is what the request came with, or the worker's value; a server that is not
    trustworthy gets none. -/
theorem fieldValues_siteName_handed (hp : Plain o.headers.list)
    (hx : ∀ r ∈ x.request, Plain r.list) :
    fieldValues siteName (handedHeaders urls x cookie u o) =
      if potentiallyTrustworthyURL urls u.1 then
        [(givenSite x o).getD (secFetchSite urls x u o)] else [] := by
  obtain ⟨hplain, hgiven⟩ := @fieldValues_siteName_given urls o u x cookie
    (potentiallyTrustworthyURL urls u.1) hp hx
  have hsite := @grows_pushSite _ (potentiallyTrustworthyURL urls u.1) urls x u o hplain
  have hdefaults := @plain_pushAll _ _ (potentiallyTrustworthyURL urls u.1) false hsite.plain
    (@defaults_defaultFields x o).plain
  rw [fieldValues_handedHeaders (plain_pushAll hdefaults plain_hintFields) (by decide), headerEntries,
    fieldValues_siteName_pushAll hdefaults plain_hintFields,
    fieldValues_siteName_pushAll hsite.plain defaults_defaultFields.plain]
  rw [fieldValues_siteName_pushSite hplain hgiven]
  cases potentiallyTrustworthyURL urls u.1 <;> rfl

theorem plain_of_mem {w : World} {st : State} {target : Text} {q : Init} {k : Hop}
    (hk : k ∈ (transportFetch urls w st target q).2.1) : Plain k.sent.options.headers.list := by
  have hcarried : Carried urls fun o => Plain o.headers.list := by
    refine ⟨id, id, fun {u next status o} ho => ?_⟩
    obtain ⟨p, hthin, -⟩ := @thinned_redirectHeaders urls o u next status
    rw [redirectOptions, hthin]
    exact ho.sublist filter_sublist
  obtain ⟨st', u, o, ho, hsent⟩ := hcarried.transportFetch q.headers_token k hk
  rwa [hsent]

/-- The header that is sent on a hop is that of the standard exactly if the request came with none
    and the URL of the hop stands for the chain, or it came with that value. -/
theorem sec_fetch_site_iff (urls : Urls) (w : World) (st : State) (target : Text) (q : Init)
    (hq : isDocument (q.options urls) = false) (sameSite : Line → Bool) (before after : List Hop)
    (k : Hop) (hk : (transportFetch urls w st target q).2.1 = before ++ k :: after)
    (x : HeaderContext) (hx : ∀ r ∈ x.request, Plain r.list) (cookie : Text) :
    fieldValues "sec-fetch-site" (handedHeaders urls x cookie k.sent.url k.sent.options) =
        (if potentiallyTrustworthyURL urls k.sent.url.1 then [standardSite urls sameSite
          (q.options urls) ((before ++ [k]).map (·.sent.url))] else []) ↔
      (potentiallyTrustworthyURL urls k.sent.url.1 → match givenSite x k.sent.options with
        | some v => v = standardSite urls sameSite (q.options urls) ((before ++ [k]).map (·.sent.url))
        | none => StandsFor urls sameSite (q.options urls) (before.map (·.sent.url)) k.sent.url) := by
  have hmem : k ∈ (transportFetch urls w st target q).2.1 := by
    rw [hk]
    exact mem_append_right _ (.head _)
  rw [show "sec-fetch-site".toList = siteName from rfl,
    fieldValues_siteName_handed (plain_of_mem hmem) hx]
  cases potentiallyTrustworthyURL urls k.sent.url.1 with
  | false => exact iff_of_true rfl nofun
  | true =>
    rw [if_pos rfl, if_pos rfl, forall_prop_of_true rfl, cons.injEq, and_iff_left rfl]
    cases givenSite x k.sent.options with
    | some v => exact Iff.rfl
    | none =>
      rw [Option.getD_none, secFetchSite_eq (alike_of_mem hmem) hq, map_append]
      exact eq_standardSite_iff

/-! ## A chain that comes back -/

/-- Another site. -/
def awayLine : Line := ⟨"https://b.test", newline_notMem rfl⟩

/-- Two redirects, to `b.test` and back to `a.test`. -/
def bouncing : World :=
  { offline with
    network s log := if log.length < 2 then
      some (leading (if s.url.1 = "https://a.test" then awayLine else homeLine))
    else none }

theorem givenSite_bouncing {x : HeaderContext} (hx : x.request = none) {k : Hop}
    (hk : k ∈ (transportFetch siteUrls bouncing State.empty "https://a.test" ownImage).2.1) :
    givenSite x k.sent.options = none := by
  have hall : (transportFetch siteUrls bouncing State.empty "https://a.test" ownImage).2.1.all
      fun k => k.sent.options.headers.get siteName == none := by decide
  rw [givenSite, hx, beq_iff_eq.1 (all_eq_true.1 hall k hk)]
  rfl

/-- The second request of the chain, to `b.test`, says that it is cross-site. -/
theorem sec_fetch_site_away : ∃ before k after, before.length = 1 ∧
    (transportFetch siteUrls bouncing State.empty "https://a.test" ownImage).2.1 =
      before ++ k :: after ∧
    ∀ cookie x, x.request = none →
      fieldValues "sec-fetch-site" (handedHeaders siteUrls x cookie k.sent.url k.sent.options) =
        ["cross-site".toList] := by
  have hurls : (transportFetch siteUrls bouncing State.empty "https://a.test" ownImage).2.1.map
      (·.sent.url) = [homeLine, awayLine, homeLine] := by decide
  have hgiven := @givenSite_bouncing
  have hiff := sec_fetch_site_iff siteUrls bouncing State.empty "https://a.test" ownImage rfl
    fun _ => false
  generalize (transportFetch siteUrls bouncing State.empty "https://a.test" ownImage).2.1 = chain
    at hurls hgiven hiff ⊢
  obtain ⟨home, later, rfl, hhome, hlater⟩ := map_eq_cons_iff.1 hurls
  obtain ⟨away, back, rfl, haway, -⟩ := map_eq_cons_iff.1 hlater
  refine ⟨[home], away, back, rfl, rfl, fun cookie x hx => ?_⟩
  refine ((hiff [home] back away rfl x (by simp [hx]) cookie).2 fun _ => ?_).trans ?_
  · rw [hgiven hx (.tail _ (.head _))]
    change StandsFor _ _ _ [home.sent.url] away.sent.url
    rw [hhome, haway, StandsFor]
    decide
  · change (if potentiallyTrustworthyURL siteUrls away.sent.url.1 then
      [standardSite siteUrls _ _ [home.sent.url, away.sent.url]] else []) = _
    rw [hhome, haway]
    decide

/-- The third request goes back to the document's origin. It says that it is of one origin,
    after a redirect from another site. -/
theorem returns_as_same_origin : ∃ before k,
    (transportFetch siteUrls bouncing State.empty "https://a.test" ownImage).2.1 = before ++ [k] ∧
    ∀ cookie x, x.request = none →
      fieldValues "sec-fetch-site" (handedHeaders siteUrls x cookie k.sent.url k.sent.options) ≠
        [standardSite siteUrls (·.1 == "https://a.test") (ownImage.options siteUrls)
          ((before ++ [k]).map (·.sent.url))] := by
  refine ⟨_, _, (dropLast_append_getLast (by decide)).symm, fun cookie x hx => ?_⟩
  have hmem := getLast_mem (l := (transportFetch siteUrls bouncing State.empty "https://a.test"
    ownImage).2.1) (by decide)
  refine (fieldValues_siteName_handed (plain_of_mem hmem) (by simp [hx])).trans_ne ?_
  rw [givenSite_bouncing hx hmem, Option.getD_none, secFetchSite_eq (alike_of_mem hmem) rfl]
  decide

end ZeroProxy.Worker.Fetch
