import ZeroProxy.Worker.FetchProbe
import ZeroProxy.Worker.RequestFields

/-!
# The headers that a page sends

How often a request is sent: what a run of `transportFetch` hands to the kernel, hop by hop.

What reaches a server of the headers that a page gives to `fetch` or `XMLHttpRequest`. They
share one list with the headers that the worker chooses and with those for the kernel.
-/

namespace ZeroProxy.Worker.Fetch

open Bool Http List Text

variable {urls : Urls} {w : World} {st : State} {o : Options} {u : Line} {target : Text}

def isQueryMethod (method : Text) : Bool :=
  method == "GET" || method == "HEAD" || method == "OPTIONS"

/-! ## What one request adds to the log -/

theorem log_send : (send urls w st u o).1.log = st.log ++ [(send urls w st u o).2] := rfl

theorem log_runCORSPreflight (names : List Text) :
    ∃ sent, (runCORSPreflight urls w st u o names).1.log = st.log ++ sent ∧
      ∀ s ∈ sent, s.options.method = "OPTIONS" := by
  have hnone : ∃ sent, st.log = st.log ++ sent ∧ ∀ s ∈ sent, s.options.method = "OPTIONS" :=
    ⟨[], (append_nil _).symm, fun _ hs => nomatch hs⟩
  rw [runCORSPreflight]
  split_ifs
  · exact hnone
  split
  · exact hnone
  next v _ =>
    have hone : ∃ sent, (send urls w st v (preflightOptions o names)).1.log = st.log ++ sent ∧
        ∀ s ∈ sent, s.options.method = "OPTIONS" := by
      refine ⟨_, log_send, fun s hs => ?_⟩
      rw [mem_singleton.1 hs]
      rfl
    split
    · exact hone
    · split_ifs <;> exact hone

theorem log_ensurePreflight : ∃ sent, (ensurePreflight urls w st u o).1.log = st.log ++ sent ∧
      ∀ s ∈ sent, s.options.method = "OPTIONS" := by
  rw [ensurePreflight]
  split_ifs
  · exact log_runCORSPreflight _
  · exact ⟨[], (append_nil _).symm, forall_mem_nil _⟩

/-- A request to the URL is refused only when the kernel is not there. -/
structure Admissible (urls : Urls) (u : Line) (o : Options) : Prop where
  canonical : urls.canonical u.1 = .ok u
  mode : ¬ (o.mode = .sameOrigin ∧ urls.origin u ≠ o.origin)
  stub : urls.stub u = false

theorem Admissible.of_admission (h : admission urls w st target o = .ok u) :
    Admissible urls u o := by
  obtain ⟨hc, hstub⟩ := admission_spec h
  refine ⟨urls.canonical_self hc, fun hmode => ?_, hstub⟩
  rw [admission, hc] at h
  dsimp only at h
  rw [if_pos hmode] at h
  cases h

theorem Admissible.admission_eq (h : Admissible urls u o) :
    admission urls w st u.1 o = if w.ready st.log.length then .ok u else .error .own := by
  rw [admission, h.canonical]
  dsimp only
  rw [if_neg h.mode, h.stub]
  cases w.ready st.log.length <;> rfl

theorem log_attempt (h : Admissible urls u o) :
    ∃ sent, (attempt urls w st u o).1.log = st.log ++ sent ∧
      (∀ s ∈ sent, s.options.method = o.method) ∧
      (sent.length ≤ 1 ↔ ¬ ∃ r, (send urls w st u o).2.reply = some r ∧
        needsRestart w u o r ∧ w.ready (st.log.length + 1)) := by
  have hmethod : ∀ s ∈ [(send urls w st u o).2], s.options.method = o.method := by
    intro s hs
    rw [mem_singleton.1 hs]
    rfl
  have hlength : (send urls w st u o).1.log.length = st.log.length + 1 := by
    rw [log_send, length_append, length_singleton]
  rw [attempt]
  dsimp only
  cases hr : (send urls w st u o).2.reply with
  | none =>
    refine ⟨_, log_send, hmethod, iff_of_true (le_refl 1) ?_⟩
    rintro ⟨r, hr', _⟩
    cases hr'
  | some r =>
    dsimp only
    by_cases hneeds : needsRestart w u o r
    · -- The checks before the request are made again. Only the kernel may be gone by now.
      have hagain : Admissible urls u { o with criticalRestart := true } :=
        ⟨h.canonical, h.mode, h.stub⟩
      rw [if_pos hneeds, hagain.admission_eq, hlength]
      cases hready : w.ready (st.log.length + 1) with
      | false =>
        refine ⟨_, log_send, hmethod, iff_of_true (le_refl 1) ?_⟩
        rintro ⟨_, _, _, hready'⟩
        cases hready'
      | true =>
        refine ⟨[(send urls w st u o).2, (send urls w (send urls w st u o).1 u
          { o with criticalRestart := true }).2], ?_, ?_, ?_⟩
        · rw [if_pos rfl]
          dsimp only
          split
          all_goals
            rw [log_send, log_send, append_assoc]
            rfl
        · intro s hs
          rcases mem_cons.1 hs with rfl | hs
          · rfl
          · rw [mem_singleton.1 hs]
            rfl
        · exact iff_of_false (Nat.not_succ_le_self 1) (not_not.2 ⟨r, rfl, hneeds, rfl⟩)
    · rw [if_neg hneeds]
      refine ⟨_, log_send, hmethod, iff_of_true (le_refl 1) ?_⟩
      rintro ⟨r', hr', hneeds', _⟩
      obtain rfl := Option.some.inj hr'
      exact hneeds hneeds'

/-! ## Legs -/

/-- A hop before it starts. -/
structure Leg where
  state : State
  target : Text
  options : Options

namespace Leg

variable (urls w) (l : Leg)

def others : List Sent := (w.others l.state.log.length).sent

def start : State := (w.others l.state.log.length).apply l.state

/-- What the hop itself hands to the kernel: all that it adds to the log. -/
def handed : List Sent :=
  (hopStep urls w l.state l.target l.options).1.log.drop (l.start w).log.length

/-- The hop is let through, its response asks for a restart, and the kernel is still there. -/
def Resends : Prop :=
  ∃ u r, admission urls w (l.start w) l.target l.options = .ok u ∧
    (send urls w (l.start w) u l.options).2.reply = some r ∧
    needsRestart w u l.options r ∧ w.ready ((l.start w).log.length + 1)

/-- The hop requests a top-level document, for the first time, the response is final and calls
    hints critical that the request did not have, and the kernel is still there. -/
def Restarts (hints : HintState) : Prop :=
  l.options.kind = .document false ∧ l.options.criticalRestart = false ∧
    ∃ u r, admission urls w (l.start w) l.target l.options = .ok u ∧
      (send urls w (l.start w) u l.options).2.reply = some r ∧ redirectLocation r = none ∧
      potentiallyTrustworthyURL urls u.1 ∧ hints.missing urls u r.headers ≠ [] ∧
      w.ready ((l.start w).log.length + 1)

end Leg

variable {l : Leg}

theorem log_start : (l.start w).log = l.state.log ++ l.others w := rfl

theorem kind_of_needsRestart {r : Response} (h : needsRestart w u o r) :
    o.kind = .document false := by
  rw [needsRestart, Bool.and_assoc, Bool.and_assoc, and_eq_true, beq_iff_eq] at h
  exact h.1

theorem taint_of_document {inFrame : Bool} (h : o.kind = .document inFrame) :
    taint urls u o = o := by
  have hcors : corsRequest o = false := by
    rw [corsRequest, corsMode, h]
    rfl
  rw [taint, hcors, Bool.false_and, Bool.or_false]

theorem ensurePreflight_of_document {inFrame : Bool} (h : o.kind = .document inFrame) :
    ensurePreflight urls w st u o = (st, true) := by
  have hcors : corsRequest o = false := by
    rw [corsRequest, corsMode, h]
    rfl
  rw [ensurePreflight, hcors]
  rfl

/-- What a hop adds to the log: preflights, and requests with its method. There is at most one
    of these unless the hop sends its request again. -/
theorem log_hopStep : ∃ preflights sent, (hopStep urls w l.state l.target l.options).1.log =
      (l.start w).log ++ (preflights ++ sent) ∧
    (∀ s ∈ preflights, s.options.method = "OPTIONS") ∧
    (∀ s ∈ sent, s.options.method = l.options.method) ∧
    (sent.length ≤ 1 ↔ ¬ l.Resends urls w) := by
  have hnil {p : Sent → Prop} : ∀ s ∈ ([] : List Sent), p s :=
    fun s hs => nomatch hs
  have hothers : (w.others l.state.log.length).apply l.state = l.start w := rfl
  rw [hopStep]
  rw [hothers]
  cases hadm : admission urls w (l.start w) l.target l.options with
  | error outcome =>
    refine ⟨[], [], (append_nil _).symm, hnil, hnil, iff_of_true (Nat.zero_le 1) ?_⟩
    rintro ⟨u, _, hu, _⟩
    rw [hadm] at hu
    cases hu
  | ok u =>
    have hstart (hk : l.options.kind = .document false) :
        ensurePreflight urls w (l.start w) u (taint urls u l.options) = (l.start w, true) := by
      rw [taint_of_document hk, ensurePreflight_of_document hk]
    obtain ⟨preflights, hlog, hopt⟩ :=
      @log_ensurePreflight urls w (l.start w) (taint urls u l.options) u
    obtain ⟨⟨st', allowed⟩, hp⟩ :
      ∃ p, ensurePreflight urls w (l.start w) u (taint urls u l.options) = p := ⟨_, rfl⟩
    dsimp only
    rw [hp] at hlog hstart ⊢
    cases allowed with
    | false =>
      -- Documents have no preflight that could fail.
      refine ⟨preflights, [], by rw [append_nil]; exact hlog, hopt, hnil,
        iff_of_true (Nat.zero_le 1) ?_⟩
      rintro ⟨_, _, _, _, hneeds, _⟩
      cases congrArg Prod.snd (hstart (kind_of_needsRestart hneeds))
    | true =>
      have hadmissible : Admissible urls u (taint urls u l.options) := by
        have h := Admissible.of_admission hadm
        exact ⟨h.canonical, h.mode, h.stub⟩
      obtain ⟨sent, hsent, hmethod, hlength⟩ := @log_attempt urls w st' _ _ hadmissible
      have hresends : (∃ r, (send urls w st' u (taint urls u l.options)).2.reply = some r ∧
          needsRestart w u (taint urls u l.options) r ∧
          w.ready (st'.log.length + 1)) ↔ l.Resends urls w := by
        constructor
        · rintro ⟨r, hr, hneeds, hready⟩
          have hk : l.options.kind = .document false := kind_of_needsRestart hneeds
          obtain rfl : st' = l.start w := congrArg Prod.fst (hstart hk)
          rw [taint_of_document hk] at hr
          exact ⟨u, r, hadm, hr, hneeds, hready⟩
        rintro ⟨v, r, hv, hr, hneeds, hready⟩
        have hk := kind_of_needsRestart hneeds
        obtain rfl : st' = l.start w := congrArg Prod.fst (hstart hk)
        obtain rfl : u = v := Except.ok.inj (hadm.symm.trans hv)
        rw [taint_of_document hk]
        exact ⟨r, hr, hneeds, hready⟩
      refine ⟨preflights, sent, ?_, hopt, hmethod, hlength.trans (not_congr hresends)⟩
      rw [← append_assoc, ← hlog, ← hsent]
      obtain ⟨⟨st'', hops, _ | _⟩, hx⟩ :
        ∃ x, attempt urls w st' u (taint urls u l.options) = x := ⟨_, rfl⟩
      all_goals
        dsimp only
        rw [hx]

theorem log_hopStep_eq : (hopStep urls w l.state l.target l.options).1.log =
    l.state.log ++ (l.others w ++ l.handed urls w) := by
  obtain ⟨preflights, sent, hlog, _⟩ := @log_hopStep urls w l
  rw [Leg.handed, hlog, drop_left, log_start, append_assoc]

theorem handed_le_one_iff :
    ((l.handed urls w).filter fun s => !isQueryMethod s.options.method).length ≤ 1 ↔
      isQueryMethod l.options.method ∨ ¬ l.Resends urls w := by
  obtain ⟨preflights, sent, hlog, hopt, hmethod, hlength⟩ := @log_hopStep urls w l
  have hpre : preflights.filter (fun s => !isQueryMethod s.options.method) = [] := by
    refine filter_eq_nil_iff.2 fun s hs => ?_
    rw [hopt s hs]
    decide
  rw [Leg.handed, hlog, drop_left, filter_append, hpre, ← hlength]
  cases hsafe : isQueryMethod l.options.method with
  | true =>
    have hnone : sent.filter (fun s => !isQueryMethod s.options.method) = [] := by
      refine filter_eq_nil_iff.2 fun s hs => ?_
      rw [hmethod s hs, hsafe]
      exact nofun
    rw [hnone]
    exact iff_of_true (Nat.zero_le 1) (.inl rfl)
  | false =>
    have hall : sent.filter (fun s => !isQueryMethod s.options.method) = sent := by
      refine filter_eq_self.2 fun s hs => ?_
      rw [hmethod s hs, hsafe]
      rfl
    rw [hall]
    exact (or_iff_right Bool.false_ne_true).symm

/-! ## Runs -/

section

variable (urls w)

/-- The hops of a request, as `transportFetchHop` comes to them. -/
def legs (left : Nat) (st : State) (target : Text) (o : Options) : List Leg :=
  ⟨st, target, o⟩ :: match hopStep urls w st target o with
    | (_, _, .ends _) => []
    | (st, _, .redirects location u o status) =>
      match left with
      | 0 => []
      | left + 1 =>
        match nextURL urls location u o with
        | none => []
        | some next => legs left st next.1 (redirectOptions urls u next status o)

/-- The hops of a run of `transportFetch`. -/
def runLegs (st : State) (target : Text) (q : Init) : List Leg :=
  match urls.canonical target with
  | .error _ => []
  | .ok u =>
    match q.body with
    | .unreadable => []
    | .tooLarge => []
    | .accepted => legs urls w 20 st u.1 (q.options urls)

/-- A request that is not safe is handed to the kernel at most once in every hop of a run, and
    nothing is sent outside of the hops, in particular after the last one. -/
structure SentOnce (st : State) (target : Text) (q : Init) : Prop where
  once : ∀ l ∈ runLegs urls w st target q,
    ((l.handed urls w).filter fun s => !isQueryMethod s.options.method).length ≤ 1
  nothingElse : (transportFetch urls w st target q).1.log =
    st.log ++ (runLegs urls w st target q).flatMap fun l => l.others w ++ l.handed urls w

end

theorem log_transportFetchHop (left : Nat) : (transportFetchHop urls w left st target o).1.log =
      st.log ++ (legs urls w left st target o).flatMap fun l => l.others w ++ l.handed urls w := by
  induction left using Nat.strong_induction_on generalizing st target o with
  | _ left ih =>
    have hlog := @log_hopStep_eq urls w ⟨st, target, o⟩
    rw [transportFetchHop.eq_def, legs.eq_def, flatMap_cons, ← append_assoc]
    rw [← hlog]
    obtain ⟨⟨st', hops, step⟩, hx⟩ : ∃ x, hopStep urls w st target o = x := ⟨_, rfl⟩
    rw [hx]
    cases step with
    | ends outcome => exact (append_nil _).symm
    | redirects location v o' status =>
      cases left with
      | zero => exact (append_nil _).symm
      | succ left =>
        dsimp only
        cases nextURL urls location v o' with
        | none => exact (append_nil _).symm
        | some next => exact ih left (Nat.lt_succ_self _)

theorem log_transportFetch (q : Init) : (transportFetch urls w st target q).1.log =
    st.log ++ (runLegs urls w st target q).flatMap fun l => l.others w ++ l.handed urls w := by
  rw [transportFetch, runLegs]
  cases urls.canonical target with
  | error e => exact (append_nil _).symm
  | ok u =>
    cases hb : q.body with
    | unreadable | tooLarge => exact (append_nil _).symm
    | accepted => exact log_transportFetchHop 20

/-! ## Restarts -/

theorem needsRestart_withHints {hints : HintState} {r : Response} :
    needsRestart (w.withHints urls hints) u o r ↔
      o.kind = .document false ∧ o.criticalRestart = false ∧ redirectLocation r = none ∧
        potentiallyTrustworthyURL urls u.1 ∧ hints.missing urls u r.headers ≠ [] := by
  simp only [needsRestart, World.withHints, and_eq_true, beq_iff_eq, not_eq_true',
    isEmpty_eq_false_iff, Option.isNone_iff_eq_none]
  tauto

theorem resends_withHints {hints : HintState} :
    l.Resends urls (w.withHints urls hints) ↔ l.Restarts urls w hints := by
  constructor
  · rintro ⟨u, r, hu, hr, hneeds, hready⟩
    obtain ⟨hk, hfirst, hloc, htrust, hmiss⟩ := needsRestart_withHints.1 hneeds
    exact ⟨hk, hfirst, u, r, hu, hr, hloc, htrust, hmiss, hready⟩
  · rintro ⟨hk, hfirst, u, r, hu, hr, hloc, htrust, hmiss, hready⟩
    exact ⟨u, r, hu, hr, needsRestart_withHints.2 ⟨hk, hfirst, hloc, htrust, hmiss⟩, hready⟩

/-- In a run of `transportFetch`, whatever the servers answer, a request that is not safe is
    handed to the kernel at most once in every hop, and never after the last one, exactly when
    no hop with such a method restarts. -/
theorem sentOnce_iff (urls : Urls) (w : World) (hints : HintState) (st : State) (target : Text)
    (q : Init) :
    SentOnce urls (w.withHints urls hints) st target q ↔
      ∀ l ∈ runLegs urls (w.withHints urls hints) st target q,
        isQueryMethod l.options.method ∨ ¬ l.Restarts urls w hints := by
  have hleg (l : Leg) := (@handed_le_one_iff urls (w.withHints urls hints) l).trans
    (or_congr_right (not_congr resends_withHints))
  exact ⟨fun h l hl => (hleg l).1 (h.once l hl),
    fun h => ⟨fun l hl => (hleg l).2 (h l hl), log_transportFetch q⟩⟩

/-! ## A form that is sent twice -/

def silentDevice : Device := ⟨none, none, none, none, false, none⟩

def noHints : HintState := ⟨silentDevice, fun _ => [], fun _ => []⟩

/-- A response that asks for the architecture as a critical hint. -/
def askingReply : Response where
  status := 200
  statusText := "OK"
  headers := ⟨[("accept-ch", "Sec-CH-UA-Arch"), ("critical-ch", "Sec-CH-UA-Arch")]⟩
  body := .null

/-- A server that gives this response to every request. -/
def askingWorld : World where
  ready _ := true
  network _ _ := some askingReply
  clock _ := 0
  others _ := quiet
  missesHints _ _ := false

/-- A form of `https://a.test` is submitted to a top-level window. -/
def submittedForm : Init where
  tabId := homeTab
  kind := .document false
  opaqueOrigin := false
  entryOpaque := false
  documentUrl := homeLine
  submitReferrer := some homeLine
  mode := .navigate
  method := "POST"
  headers := ⟨[("content-type", "application/x-www-form-urlencoded")]⟩
  implicitHeaders := []
  credentials := none
  redirect := none
  body := .accepted
  method_token := by decide
  headers_token := by
    intro e he
    rw [mem_singleton.1 he]
    decide

/-- The form is sent to the server twice. -/
theorem form_sent_twice : ¬ SentOnce plainUrls (askingWorld.withHints plainUrls noHints) State.empty
    "https://a.test" submittedForm := by
  have hcanon := @canonical_plainUrls "https://a.test" ⟨by decide, by decide⟩
  have hmem : ⟨State.empty, "https://a.test", submittedForm.options plainUrls⟩ ∈
      runLegs plainUrls (askingWorld.withHints plainUrls noHints) State.empty
        "https://a.test" submittedForm := by
    rw [runLegs, hcanon]
    dsimp only [submittedForm]
    rw [legs.eq_def]
    exact .head _
  have hadmissible : Admissible plainUrls homeLine
      (submittedForm.options plainUrls) := ⟨hcanon, fun h => Mode.noConfusion h.1, rfl⟩
  have hrestarts : Leg.Restarts plainUrls askingWorld
      ⟨State.empty, "https://a.test", submittedForm.options plainUrls⟩ noHints :=
    ⟨rfl, rfl, homeLine, askingReply, hadmissible.admission_eq, rfl, rfl,
      by decide, by decide, rfl⟩
  intro h
  rcases handed_le_one_iff.1 (h.once _ hmem) with hsafe | hnot
  · cases hsafe
  · exact hnot (resends_withHints.2 hrestarts)

open Codec Kernel Headers
open Kernel (isInternal passes sidechannel)

/-! ## What is sent -/

/-- The headers that a page gives to `fetch` or `XMLHttpRequest`: a `Headers` object. -/
structure PageHeaders where
  headers : Headers
  plain : Plain headers.list

/-- A `fetch` comes without an intercepted request. -/
def HeaderContext.ofPage (x : HeaderContext) : HeaderContext :=
  { x with request := none, noRange := false }

/-- A `fetch` with the headers of the page. -/
def Options.ofPage (o : Options) (page : PageHeaders) : Options :=
  { o with kind := .runtimeFetch, headers := page.headers }

variable (urls : Urls) (x : HeaderContext) (jar : CookieJar) (now : Int) (u : Line) (o : Options)

def handed : List Field := handedHeaders urls x (requestCookie urls jar now u o) u o

def upstreamHeaders : List Field := requestHeaders (handed urls x jar now u o)

/-- The headers that a page has no say in. -/
def reservedNames : List Text := ["user-agent", "accept-encoding", "cookie", "referer", "origin",
    "host", "connection", "content-length", "transfer-encoding"]

/-- The list that is sent for a hop has nothing for the kernel, the `User-Agent` of the worker
    and one `Accept-Encoding`, at most one `Cookie`, `Referer` and `Origin`, those of the
    worker, nothing that the transport answers for, every other header of the page once, and
    the order that the worker asks for. -/
structure Clean : Prop where
  noInternal : ∀ e ∈ upstreamHeaders urls x jar now u o, isInternal (lower e.1) = false
  userAgent : fieldValues "user-agent" (upstreamHeaders urls x jar now u o) = [targetUserAgent]
  acceptEncoding : (fieldValues "accept-encoding" (upstreamHeaders urls x jar now u o)).length = 1
  cookie : fieldValues "cookie" (upstreamHeaders urls x jar now u o) =
    unlessEmpty (requestCookie urls jar now u o)
  referer : fieldValues "referer" (upstreamHeaders urls x jar now u o) = unlessEmpty x.referer
  origin : fieldValues "origin" (upstreamHeaders urls x jar now u o) =
    ((sentOrigin urls u o).map fun v => Http.normalize v.1).toList
  framing : ∀ n ∈ ["host".toList, "connection".toList, "content-length".toList,
    "transfer-encoding".toList], fieldValues n (upstreamHeaders urls x jar now u o) = []
  others : ∀ n ∈ headerNames o.headers, isInternal n = false → n ∉ reservedNames →
    fieldValues n (upstreamHeaders urls x jar now u o) = (o.headers.get n).toList
  order : Follows (requestedOrder urls x (requestCookie urls jar now u o) u o)
    (unordered (handed urls x jar now u o)) (upstreamHeaders urls x jar now u o)

/-- No header is read as the page's choice of a `User-Agent`, hints of the page are the worker's
    own, metadata goes to a server that gets some, and `Set-Cookie` is not repeated. -/
structure Harmless (page : Headers) : Prop where
  noUserAgent : "x-zp-user-agent".toList ∉ headerNames page
  hints : ∀ n ∈ headerNames page, n ∈ browserClientHints →
    n ∈ sentHints urls x.prefs x.place u ∧ clientHintValue x.device n = page.get n
  metadata : ∀ n ∈ headerNames page, "sec-fetch-".toList.isPrefixOf n →
    potentiallyTrustworthyURL urls u.1
  setCookie : (page.values "set-cookie").length ≤ 1

variable {urls x jar now u o} {n : Text} {page : PageHeaders}

/-! ## The headers for the kernel -/

theorem plain_ofPage {cookie : Text} :
    Plain (headerEntries urls x.ofPage cookie u (o.ofPage page)) :=
  plain_headerEntries rfl rfl page.plain

/-- A name that only the page and the first part of the worker can give. -/
def isControl (n : Text) : Bool :=
  lower n == n && !defaultNames.contains n && !browserClientHints.contains n &&
    !"sec-fetch-".toList.isPrefixOf n && n != "set-cookie"

theorem fieldValues_control {cookie : Text} (hn : isControl n) :
    fieldValues n (headerEntries urls x.ofPage cookie u (o.ofPage page)) =
      ((controlHeaders urls x.ofPage cookie u (o.ofPage page)).get n).toList := by
  rw [isControl, and_eq_true, and_eq_true, and_eq_true, and_eq_true,
    beq_iff_eq, not_eq_true', not_eq_true', not_eq_true', bne_iff_ne] at hn
  obtain ⟨⟨⟨⟨hlower, hdefault⟩, hhint⟩, hmeta⟩, hset⟩ := hn
  have hdefault' : n ∉ defaultNames := fun h =>
    eq_false_iff.1 hdefault (contains_iff_mem.2 h)
  have hhint' : n ∉ clientHintNavOrder := fun h =>
    eq_false_iff.1 hhint (contains_iff_mem.2 (mem_append_left _ h))
  have hagent : n ≠ "user-agent" := by
    rintro rfl
    exact hdefault' (by simp [defaultNames])
  have hrefuse : refuses (potentiallyTrustworthyURL urls u.1) false n = false := by
    rw [refuses, hhint, hmeta, Bool.and_false, Bool.and_false]
    rfl
  rw [fieldValues_of_accepted rfl rfl page.plain hagent hrefuse (.inr ⟨hdefault', hhint'⟩),
    fieldValues_entries (plain_controlHeaders page.plain) hlower, if_neg hset]
  cases (controlHeaders urls x.ofPage cookie u (o.ofPage page)).get n <;> rfl

/-- The names that the kernel reads a header to send from. -/
def readNames : List Text := ["x-zp-referer", "x-zp-origin", "x-zp-user-agent", "cookie"]

/-- The names that a page has no say in, apart from `User-Agent`. -/
def unkeptNames : List Text := ["accept-encoding", "cookie", "referer", "origin", "host",
    "connection", "content-length", "transfer-encoding"]

def isTaken (n : Text) : Bool := isInternal n || reservedNames.contains n

def takenTables : List (List Text) :=
  [framingNames, promotedNames, referrerNames, ["referer", "origin"], controlNames]

/-- What the tables of header names are checked for. -/
structure NameTables : Prop where
  read : (readNames.all fun m => isControl m && m != "x-zp-header-order")
  unkept : (unkeptNames.all fun m => !passes m && !m.isEmpty && !isInternal m)
  userAgent : passes "user-agent"
  taken : takenTables.flatten.all isTaken
  hints : (browserClientHints.all fun m =>
    !"sec-fetch-".toList.isPrefixOf m && !isTaken m && m != "set-cookie")
  metadata : (reservedNames.all fun m => !"sec-fetch-".toList.isPrefixOf m)
  framing : (["host".toList, "connection".toList, "content-length".toList,
    "transfer-encoding".toList].all fun m => !promotedNames.contains m)
  setCookie : isTaken "set-cookie" = false

open NameTables

theorem nameTables : NameTables := by
  constructor
  -- The names are spelled out before they are compared: that is quick to check.
  all_goals
    dsimp only [isControl, defaultNames, browserClientHints, clientHintNavOrder, unkeptNames,
      passes, takenTables, isTaken, reservedNames, promotedNames, controlNames]
    repeat rw [String.toList_ofList]
    decide

theorem isTaken_eq_false_iff : isTaken n = false ↔ isInternal n = false ∧ n ∉ reservedNames := by
  rw [isTaken, or_eq_false_iff, ← not_eq_true (reservedNames.contains n), contains_iff_mem]

theorem isControl_of_mem (hn : n ∈ readNames) : isControl n ∧ n ≠ "x-zp-header-order" := by
  have := all_eq_true.1 (read nameTables) n hn
  rwa [and_eq_true, bne_iff_ne] at this

theorem getLast?_control (hn : n ∈ readNames) :
    (fieldValues n (handed urls x.ofPage jar now u (o.ofPage page))).getLast? =
      (controlHeaders urls x.ofPage (requestCookie urls jar now u (o.ofPage page)) u
        (o.ofPage page)).get n := by
  obtain ⟨hcontrol, hne⟩ := isControl_of_mem hn
  rw [handed, fieldValues_handedHeaders plain_ofPage hne, fieldValues_control hcontrol]
  cases (controlHeaders urls x.ofPage (requestCookie urls jar now u (o.ofPage page)) u
    (o.ofPage page)).get n <;> rfl

theorem toList_get {h : Headers} (hlen : (h.values n).length ≤ 1) :
    (h.get n).toList = h.values n := by
  cases hv : h.values n with
  | nil => rw [get_eq_none hv]; rfl
  | cons v vs =>
    rw [hv] at hlen
    obtain rfl := length_eq_zero_iff.1 (Nat.le_zero.1 (Nat.le_of_succ_le_succ hlen))
    rw [get_eq_some hv]
    rfl

theorem length_unlessEmpty (v : Text) : (unlessEmpty v).length ≤ 1 := by
  rw [unlessEmpty]
  split_ifs
  · exact Nat.zero_le 1
  · exact le_refl 1

theorem referer_handed :
    (sidechannel (handed urls x.ofPage jar now u (o.ofPage page))).referer.toList =
      unlessEmpty x.referer := by
  rw [referer_sidechannel, getLast?_control (.head _)]
  rw [toList_get] <;> rw [values_referer]
  · rfl
  · exact length_unlessEmpty _

theorem cookie_handed :
    (sidechannel (handed urls x.ofPage jar now u (o.ofPage page))).cookie.toList =
      unlessEmpty (requestCookie urls jar now u (o.ofPage page)) := by
  rw [cookie_sidechannel, getLast?_control (.tail _ (.tail _ (.tail _ (.head _))))]
  rw [toList_get] <;> rw [values_cookie]
  exact length_unlessEmpty _

theorem origin_handed :
    (sidechannel (handed urls x.ofPage jar now u (o.ofPage page))).origin.toList =
      ((sentOrigin urls u (o.ofPage page)).map fun v => Http.normalize v.1).toList := by
  rw [origin_sidechannel, getLast?_control (.tail _ (.head _))]
  rw [toList_get] <;> rw [values_origin]
  cases sentOrigin urls u (o.ofPage page)
  · exact Nat.zero_le 1
  · exact le_refl 1

theorem userAgent_handed :
    (sidechannel (handed urls x.ofPage jar now u (o.ofPage page))).userAgent =
      page.headers.get "x-zp-user-agent" := by
  rw [userAgent_sidechannel, getLast?_control (.tail _ (.tail _ (.head _)))]
  exact get_congr (values_controlHeaders_of_ne (by decide) (by decide) (by decide) (by decide))

/-! ## What is sent -/

theorem fieldValues_upstream (hn : n ≠ []) (hne : n ≠ "x-zp-header-order") :
    fieldValues n (upstreamHeaders urls x.ofPage jar now u (o.ofPage page)) =
      (if passes n then fieldValues n (headerEntries urls x.ofPage
        (requestCookie urls jar now u (o.ofPage page)) u (o.ofPage page)) else []) ++
      fieldValues n (sidechannel (handed urls x.ofPage jar now u (o.ofPage page))).promotions := by
  rw [upstreamHeaders, fieldValues_requestHeaders hn]
  refine congrArg (· ++ _) (if_congr Iff.rfl ?_ rfl)
  exact fieldValues_handedHeaders plain_ofPage hne

theorem fieldValues_userAgent_upstream : fieldValues "user-agent"
      (upstreamHeaders urls x.ofPage jar now u (o.ofPage page)) =
    targetUserAgent :: (page.headers.get "x-zp-user-agent").toList := by
  have hpass := userAgent nameTables
  rw [fieldValues_upstream (by simp) (by simp), hpass, if_pos rfl,
    fieldValues_userAgent rfl rfl page.plain, fieldValues_promotions, userAgent_handed]
  simp

theorem userAgent_iff : fieldValues "user-agent"
      (upstreamHeaders urls x.ofPage jar now u (o.ofPage page)) = [targetUserAgent] ↔
    "x-zp-user-agent".toList ∉ headerNames page.headers := by
  rw [fieldValues_userAgent_upstream, ← values_eq_nil_iff (by decide)]
  cases hv : page.headers.values "x-zp-user-agent" with
  | nil => rw [get_eq_none hv]; exact iff_of_true rfl rfl
  | cons v vs =>
    rw [Headers.get, hv]
    exact iff_of_false (fun h => by cases h) (cons_ne_nil _ _)

theorem fieldValues_upstream_of_dropped (hdropped : n ∈ unkeptNames) :
    fieldValues n (upstreamHeaders urls x.ofPage jar now u (o.ofPage page)) =
      fieldValues n (sidechannel (handed urls x.ofPage jar now u (o.ofPage page))).promotions := by
  have hprops := all_eq_true.1 (unkept nameTables) n hdropped
  rw [and_eq_true, and_eq_true, not_eq_true', not_eq_true', isEmpty_eq_false_iff] at hprops
  obtain ⟨⟨hpass, hnil⟩, hint⟩ := hprops
  have hne : n ≠ "x-zp-header-order" := by
    rintro rfl
    cases hint
  rw [fieldValues_upstream hnil hne, hpass, if_neg Bool.false_ne_true, nil_append]

theorem notMem_of_other (hint : isInternal n = false) (hres : n ∉ reservedNames) {l : List Text}
    (hl : l ∈ takenTables) : n ∉ l := by
  intro hn
  have htaken := all_eq_true.1 (taken nameTables) n (mem_flatten.2 ⟨l, hl, hn⟩)
  rw [isTaken_eq_false_iff.2 ⟨hint, hres⟩] at htaken
  cases htaken

theorem fieldValues_upstream_of_other (hmem : n ∈ headerNames page.headers)
    (hint : isInternal n = false) (hres : n ∉ reservedNames) :
    fieldValues n (upstreamHeaders urls x.ofPage jar now u (o.ofPage page)) =
      fieldValues n (headerEntries urls x.ofPage (requestCookie urls jar now u (o.ofPage page)) u
        (o.ofPage page)) := by
  obtain ⟨e, he, rfl⟩ := mem_map.1 (mem_headerNames.1 hmem)
  have hpass : passes e.1 := by
    have hframing : framingNames.contains e.1 = false := by
      rw [← not_eq_true, contains_iff_mem]
      exact notMem_of_other hint hres (.head _)
    rw [passes, hint, hframing, Bool.not_false, Bool.and_true, Bool.true_and, bne_iff_ne]
    rintro h
    exact hres (by simp [h, reservedNames])
  rw [fieldValues_upstream (chars_of_isToken (page.plain e he).1).1, hpass, if_pos rfl,
    fieldValues_promotions_of_notMem _ (notMem_of_other hint hres (.tail _ (.head _))), append_nil]
  rintro h
  rw [h] at hint
  cases hint

/-! ## The headers of the page -/

theorem values_ofPage {cookie : Text} (hn : lower n = n) (hint : isInternal n = false)
    (hres : n ∉ reservedNames) :
    (controlHeaders urls x.ofPage cookie u (o.ofPage page)).values n = page.headers.values n :=
  values_controlHeaders_of_ne hn (notMem_of_other hint hres (.tail _ (.tail _ (.head _))))
    (notMem_of_other hint hres (.tail _ (.tail _ (.tail _ (.head _)))))
    (notMem_of_other hint hres (.tail _ (.tail _ (.tail _ (.tail _ (.head _))))))

theorem plainName_of_hint (hn : n ∈ browserClientHints) :
    "sec-fetch-".toList.isPrefixOf n = false ∧ (isInternal n = false ∧ n ∉ reservedNames) ∧
      n ≠ "set-cookie" := by
  have := all_eq_true.1 (hints nameTables) n hn
  rw [and_eq_true, and_eq_true, not_eq_true', not_eq_true', bne_iff_ne] at this
  exact ⟨this.1.1, isTaken_eq_false_iff.1 this.1.2, this.2⟩

theorem plainName_of_secFetch (hn : "sec-fetch-".toList.isPrefixOf n) :
    isInternal n = false ∧ n ∉ reservedNames := by
  obtain ⟨rest, rfl⟩ := isPrefixOf_iff_prefix.1 hn
  refine ⟨rfl, fun hmem => ?_⟩
  have := all_eq_true.1 (metadata nameTables) _ hmem
  rw [hn] at this
  cases this

theorem head?_values_eq_iff {h : Headers} (hne : h.values n ≠ []) :
    (h.values n).head?.toList = (h.get n).toList ↔ (h.values n).length ≤ 1 := by
  refine ⟨fun heq => ?_, fun hlen => ?_⟩
  · obtain ⟨v, vs, hv⟩ := exists_cons_of_ne_nil hne
    cases vs with
    | nil => rw [hv]; exact le_refl 1
    | cons v' vs =>
      -- The combined value is longer than the first one.
      rw [Headers.get, hv] at heq
      have hcombined : v = ", ".toList.intercalate (v :: v' :: vs) := (cons.inj heq).1
      have hlen := congrArg length hcombined
      rw [intercalate, intersperse_cons_cons, flatten_cons, flatten_cons,
        length_append, length_append] at hlen
      exact absurd hlen (ne_of_lt (Nat.lt_add_of_pos_right (Nat.add_pos_left (by decide) _)))
  · rw [toList_get hlen]
    cases hv : h.values n with
    | nil => rfl
    | cons v vs =>
      rw [hv] at hlen
      obtain rfl := length_eq_zero_iff.1 (Nat.le_zero.1 (Nat.le_of_succ_le_succ hlen))
      rfl

section

variable {cookie : Text} (hmem : n ∈ headerNames page.headers) (hres : n ∉ reservedNames)

include hmem

theorem lower_of_mem : lower n = n := by
  obtain ⟨e, he, rfl⟩ := mem_map.1 (mem_headerNames.1 hmem)
  exact (page.plain e he).2

theorem values_ne_nil_of_mem : page.headers.values n ≠ [] :=
  fun hnil => (values_eq_nil_iff (lower_of_mem hmem)).1 hnil hmem

theorem toList_get_ne_nil_of_mem : (page.headers.get n).toList ≠ [] := by
  obtain ⟨v, vs, hv⟩ := exists_cons_of_ne_nil (values_ne_nil_of_mem hmem)
  rw [Headers.get, hv]
  exact cons_ne_nil _ _

omit hmem in
include hres in
theorem ne_userAgent : n ≠ "user-agent" := by
  rintro rfl
  exact hres (by simp [reservedNames])

include hres

theorem hint_iff (hhint : n ∈ browserClientHints) :
    fieldValues n (headerEntries urls x.ofPage cookie u (o.ofPage page)) =
        (page.headers.get n).toList ↔
      n ∈ sentHints urls x.prefs x.place u ∧
        clientHintValue x.device n = page.headers.get n := by
  have hrefuse (own : Bool) : refuses (potentiallyTrustworthyURL urls u.1) own n = !own := by
    rw [refuses, (plainName_of_hint hhint).1, contains_iff_mem.2 hhint, Bool.and_true,
      Bool.and_false, Bool.or_false]
  rw [fieldValues_of_refused rfl rfl page.plain (ne_userAgent hres) (hrefuse false), hrefuse true]
  by_cases hsent : n ∈ sentHints urls x.ofPage.prefs x.ofPage.place u
  · rw [if_pos ⟨rfl, hsent⟩]
    refine ⟨fun h => ⟨hsent, ?_⟩, fun h => congrArg Option.toList h.2⟩
    have hhead := congrArg head? h
    rwa [Option.head?_toList, Option.head?_toList] at hhead
  · rw [if_neg fun h => hsent h.2]
    exact iff_of_false (toList_get_ne_nil_of_mem hmem).symm fun h => hsent h.1

omit hmem in
theorem fieldValues_metadata (hmeta : "sec-fetch-".toList.isPrefixOf n)
    (htrust : potentiallyTrustworthyURL urls u.1 = false) :
    fieldValues n (headerEntries urls x.ofPage cookie u (o.ofPage page)) = [] := by
  have hrefuse (own : Bool) : refuses (potentiallyTrustworthyURL urls u.1) own n := by
    rw [refuses, hmeta, htrust]
    exact Bool.or_true _
  rw [fieldValues_of_refused rfl rfl page.plain (ne_userAgent hres) (hrefuse false), hrefuse true,
    if_neg fun h => Bool.noConfusion h.1]

theorem fieldValues_page (hint : isInternal n = false) (hhint : n ∉ browserClientHints)
    (hmeta : "sec-fetch-".toList.isPrefixOf n → potentiallyTrustworthyURL urls u.1) :
    fieldValues n (headerEntries urls x.ofPage cookie u (o.ofPage page)) =
      if n = "set-cookie" then (page.headers.values n).head?.toList
      else (page.headers.get n).toList := by
  have hrefuse : refuses (potentiallyTrustworthyURL urls u.1) false n = false := by
    rw [refuses, or_eq_false_iff]
    constructor
    · rw [← not_eq_true, and_eq_true, contains_iff_mem]
      exact fun h => hhint h.2
    · rw [← not_eq_true, and_eq_true]
      rintro ⟨htrust, h⟩
      rw [hmeta h] at htrust
      cases htrust
  have hvalues := @values_ofPage urls x u o n page cookie (lower_of_mem hmem) hint hres
  have hfirst : (fieldValues n (entries (controlHeaders urls x.ofPage cookie u
      (o.ofPage page)))).head?.toList = if n = "set-cookie" then
        (page.headers.values n).head?.toList else (page.headers.get n).toList := by
    rw [fieldValues_entries (plain_controlHeaders page.plain) (lower_of_mem hmem), hvalues,
      get_congr hvalues]
    split_ifs
    · rfl
    · cases page.headers.get n <;> rfl
  have hsome : (fieldValues n (entries (controlHeaders urls x.ofPage cookie u
      (o.ofPage page)))).head?.toList ≠ [] := by
    rw [hfirst]
    split_ifs
    · obtain ⟨v, vs, hv⟩ := exists_cons_of_ne_nil (values_ne_nil_of_mem hmem)
      rw [hv]
      exact cons_ne_nil _ _
    · exact toList_get_ne_nil_of_mem hmem
  rw [fieldValues_of_accepted rfl rfl page.plain (ne_userAgent hres) hrefuse (.inl hsome), hfirst]

theorem other_iff (hint : isInternal n = false) :
    fieldValues n (headerEntries urls x.ofPage cookie u (o.ofPage page)) =
        (page.headers.get n).toList ↔
      (n ∈ browserClientHints →
        n ∈ sentHints urls x.prefs x.place u ∧ clientHintValue x.device n = page.headers.get n) ∧
      ("sec-fetch-".toList.isPrefixOf n → potentiallyTrustworthyURL urls u.1) ∧
      (n = "set-cookie" → (page.headers.values n).length ≤ 1) := by
  by_cases hhint : n ∈ browserClientHints
  · obtain ⟨hmeta, -, hset⟩ := plainName_of_hint hhint
    rw [← not_eq_true] at hmeta
    rw [hint_iff hmem hres hhint]
    exact ⟨fun h => ⟨fun _ => h, fun h' => absurd h' hmeta, fun h' => absurd h' hset⟩,
      fun h => h.1 hhint⟩
  by_cases hmeta : "sec-fetch-".toList.isPrefixOf n → potentiallyTrustworthyURL urls u.1
  · rw [fieldValues_page hmem hres hint hhint hmeta]
    by_cases hset : n = "set-cookie"
    · rw [if_pos hset, head?_values_eq_iff (values_ne_nil_of_mem hmem)]
      exact ⟨fun h => ⟨fun h' => absurd h' hhint, hmeta, fun _ => h⟩, fun h => h.2.2 hset⟩
    · rw [if_neg hset]
      exact iff_of_true rfl ⟨fun h => absurd h hhint, hmeta, fun h => absurd h hset⟩
  · obtain ⟨hbegins, htrust⟩ := Classical.not_imp.1 hmeta
    rw [fieldValues_metadata hres hbegins (eq_false_iff.2 htrust)]
    exact iff_of_false (toList_get_ne_nil_of_mem hmem).symm fun h => hmeta h.2.1

end

/-! ## The law -/

theorem length_acceptEncoding_upstream : (fieldValues "accept-encoding"
    (upstreamHeaders urls x.ofPage jar now u (o.ofPage page))).length = 1 := by
  rw [fieldValues_upstream_of_dropped (.head _)]
  simp [fieldValues_promotions]

theorem fieldValues_cookie_upstream :
    fieldValues "cookie" (upstreamHeaders urls x.ofPage jar now u (o.ofPage page)) =
      unlessEmpty (requestCookie urls jar now u (o.ofPage page)) := by
  rw [fieldValues_upstream_of_dropped (.tail _ (.head _)), fieldValues_promotions, cookie_handed]
  simp

theorem fieldValues_referer_upstream :
    fieldValues "referer" (upstreamHeaders urls x.ofPage jar now u (o.ofPage page)) =
      unlessEmpty x.referer := by
  rw [fieldValues_upstream_of_dropped (.tail _ (.tail _ (.head _))), fieldValues_promotions,
    referer_handed]
  simp

theorem fieldValues_origin_upstream :
    fieldValues "origin" (upstreamHeaders urls x.ofPage jar now u (o.ofPage page)) =
      ((sentOrigin urls u (o.ofPage page)).map fun v => Http.normalize v.1).toList := by
  rw [fieldValues_upstream_of_dropped (.tail _ (.tail _ (.tail _ (.head _)))),
    fieldValues_promotions, origin_handed]
  simp

theorem fieldValues_framing_upstream (hn : n ∈ ["host".toList, "connection",
    "content-length", "transfer-encoding"]) :
    fieldValues n (upstreamHeaders urls x.ofPage jar now u (o.ofPage page)) = [] := by
  have hadded := all_eq_true.1 (framing nameTables) n hn
  rw [not_eq_true'] at hadded
  rw [fieldValues_upstream_of_dropped (.tail _ (.tail _ (.tail _ (.tail _ hn)))),
    fieldValues_promotions_of_notMem]
  exact fun h => eq_false_iff.1 hadded (contains_iff_mem.2 h)

theorem follows_upstream :
    Follows (requestedOrder urls x.ofPage (requestCookie urls jar now u (o.ofPage page)) u
        (o.ofPage page))
      (unordered (handed urls x.ofPage jar now u (o.ofPage page)))
      (upstreamHeaders urls x.ofPage jar now u (o.ofPage page)) := by
  rw [upstreamHeaders, requestHeaders, handed, swOrder_handedHeaders plain_ofPage]
  exact follows_orderRequestHeaders _ _

/-- The headers that are sent for a `fetch` or an `XMLHttpRequest` are clean exactly when those
    of the page are harmless. -/
theorem clean_iff (urls : Urls) (x : HeaderContext) (jar : CookieJar) (now : Int) (u : Line)
    (o : Options) (page : PageHeaders) :
    Clean urls x.ofPage jar now u (o.ofPage page) ↔ Harmless urls x u page.headers := by
  have hother {n : Text} (hmem : n ∈ headerNames page.headers) (hint : isInternal n = false)
      (hres : n ∉ reservedNames) :
      fieldValues n (upstreamHeaders urls x.ofPage jar now u (o.ofPage page)) =
        (page.headers.get n).toList ↔ _ :=
    (iff_of_eq (congrArg (· = _) (fieldValues_upstream_of_other hmem hint hres))).trans
      (other_iff hmem hres hint)
  constructor
  · intro h
    refine ⟨userAgent_iff.1 h.userAgent, fun n hmem hhint => ?_, fun n hmem hmeta => ?_, ?_⟩
    · have hplain := (plainName_of_hint hhint).2.1
      exact ((hother hmem hplain.1 hplain.2).1 (h.others n hmem hplain.1 hplain.2)).1 hhint
    · have hplain := plainName_of_secFetch hmeta
      exact ((hother hmem hplain.1 hplain.2).1 (h.others n hmem hplain.1 hplain.2)).2.1 hmeta
    · by_cases hmem : "set-cookie".toList ∈ headerNames page.headers
      · have hplain := isTaken_eq_false_iff.1 (setCookie nameTables)
        exact ((hother hmem hplain.1 hplain.2).1 (h.others _ hmem hplain.1 hplain.2)).2.2 rfl
      · rw [(values_eq_nil_iff (by decide)).2 hmem]
        exact Nat.zero_le 1
  · intro h
    refine ⟨fun e he => not_isInternal_of_mem he, userAgent_iff.2 h.noUserAgent,
      length_acceptEncoding_upstream, fieldValues_cookie_upstream, fieldValues_referer_upstream,
      fieldValues_origin_upstream, fun n hn => fieldValues_framing_upstream hn,
      fun n hmem hint hres => ?_, follows_upstream⟩
    refine (hother hmem hint hres).2 ⟨h.hints n hmem, h.metadata n hmem, fun hset => ?_⟩
    rw [hset]
    exact h.setCookie

/-! ## A page that names a browser -/

/-- A page that gives `X-ZP-User-Agent`. -/
def spoofingPage : PageHeaders where
  headers := ⟨[("x-zp-user-agent", "Spoofed/1.0")]⟩
  plain := by
    intro e he
    rw [mem_singleton.1 he]
    exact ⟨by decide, by decide⟩

/-- A tab at the start. -/
def freshContext : HeaderContext where
  request := none
  noRange := false
  proxyOrigin := "https://proxy.test"
  referrer := none
  referer := "https://a.test/"
  entryId := "entry"
  streamIsolationKey := "key"
  runtimeToken := "token"
  relayServers := "[]"
  challengeCompat := false
  navDest := "document"
  elementMode := "cors"
  elementDest := "empty"
  elementCredentials := .sameOrigin
  acceptLanguage := "en-US,en;q=0.9"
  device := silentDevice
  prefs := fun _ => []
  place := ⟨false, false, nullOrigin, nullOrigin, nullOrigin⟩

/-- The server gets two headers `User-Agent`, one of them with the value of the page. -/
theorem user_agent_spoofed :
    fieldValues "user-agent" (upstreamHeaders plainUrls freshContext.ofPage .empty 0
      homeLine ((submittedForm.options plainUrls).ofPage spoofingPage)) =
        [targetUserAgent, "Spoofed/1.0"] ∧
    ¬ Clean plainUrls freshContext.ofPage .empty 0 homeLine
      ((submittedForm.options plainUrls).ofPage spoofingPage) := by
  have hget : spoofingPage.headers.get "x-zp-user-agent" = some "Spoofed/1.0" := by
    decide
  refine ⟨by rw [fieldValues_userAgent_upstream, hget]; rfl, fun h => ?_⟩
  exact userAgent_iff.1 h.userAgent (mem_headerNames.2 (.head _))

end ZeroProxy.Worker.Fetch
