import ZeroProxy.Worker.FetchCors

/-!
# Requests without guarantees

A server that allows in every preflight what the worker asks for, and nothing else, and that
redirects to a foreign address. It receives a header that needs a preflight and was not
asked for, when there is one.
-/

namespace ZeroProxy.Worker.Fetch

open Http List Text Headers

variable {urls : Urls} {st : State} {o o' : Options} {q : Init} {u v : Line} {names : List Text}

/-! ## Lists of tokens -/

theorem corsTokenList_intercalate (h : ∀ n ∈ names, isToken n) :
    corsTokenList (some (",".toList.intercalate names)) = names := by
  by_cases hne : names = []
  · subst hne
    decide
  have htrim : names.map jsTrim = names :=
    (map_congr_left fun n hn => jsTrim_of_isToken (h n hn)).trans (map_id _)
  rw [corsTokenList, split_intercalate h hne, htrim, filter_eq_self]
  intro n hn
  rw [Bool.not_eq_true', isEmpty_eq_false_iff]
  exact (chars_of_isToken (h n hn)).1

/-! ## The server -/

def grantHeaders (origin methods names : Text) : Headers :=
  ⟨[("access-control-allow-origin", origin), ("access-control-allow-credentials", "true"),
    ("access-control-allow-methods", methods),
    ("access-control-allow-headers", names),
    ("access-control-max-age", "0")]⟩

theorem get_grantHeaders (origin methods names : Text) :
    (grantHeaders origin methods names).get "access-control-allow-origin" = some origin ∧
      (grantHeaders origin methods names).get "access-control-allow-credentials" =
        some "true".toList ∧
      (grantHeaders origin methods names).get "access-control-allow-methods" = some methods ∧
      (grantHeaders origin methods names).get "access-control-allow-headers" = some names := by
  rw [grantHeaders]
  refine ⟨?_, ?_, ?_, ?_⟩
  · exact get_cons_self (by decide) (by simp only [map]; decide)
  · rw [get_cons_of_ne (by decide)]
    exact get_cons_self (by decide) (by simp only [map]; decide)
  · rw [get_cons_of_ne (by decide), get_cons_of_ne (by decide)]
    exact get_cons_self (by decide) (by simp only [map]; decide)
  · rw [get_cons_of_ne (by decide), get_cons_of_ne (by decide), get_cons_of_ne (by decide)]
    exact get_cons_self (by decide) (by simp only [map]; decide)

/-- The answer to a preflight: the origin, the method and the names that the worker asks for. -/
def granting (o : Options) (names : List Text) : Response where
  status := 200
  statusText := []
  headers := grantHeaders o.origin.1 o.method (",".toList.intercalate names)
  body := .null

/-- A redirect that keeps the method. -/
def leading (v : Line) : Response where
  status := 307
  statusText := []
  headers := ⟨[("location", v.1)]⟩
  body := .null

/-- Nobody else does anything. -/
def quiet : Interference where
  sent := []
  grants := []
  evicts _ := false
  jar := id
  grants_sent _ hg := nomatch hg

/-- A request is never interrupted. Preflights are granted, and everything else redirects to
    `v`. -/
def probe (o : Options) (names : List Text) (v : Line) : World where
  ready _ := true
  network s _ := some (if s.options.preflight then granting o names else leading v)
  clock _ := 0
  others _ := quiet
  missesHints _ _ := false

theorem corsCheck_granting (credentials : Bool) :
    corsCheck (granting o names).headers o.origin.1 credentials := by
  obtain ⟨horigin, hcred, _, _⟩ :=
    get_grantHeaders o.origin.1 o.method (",".toList.intercalate names)
  rw [corsCheck, granting, horigin, hcred]
  dsimp only
  rw [beq_self_eq_true, beq_self_eq_true, Bool.or_true, Bool.and_self, Bool.or_true]

theorem entryOf_granting (hmethod : isToken o.method)
    (hnames : ∀ n ∈ names, isToken n ∧ lower n = n) (now : Int) :
    (entryOf (granting o names).headers now).methods = [o.method] ∧
      (entryOf (granting o names).headers now).headers = names := by
  obtain ⟨_, _, hm, hh⟩ := get_grantHeaders o.origin.1 o.method (",".toList.intercalate names)
  have hone : corsTokenList (some o.method) = [o.method] := by
    have hlist : ∀ n ∈ [o.method], isToken n := fun n hn => mem_singleton.1 hn ▸ hmethod
    have := corsTokenList_intercalate hlist
    rwa [intercalate_singleton] at this
  constructor
  · rw [entryOf, granting, hm, hone]
  · rw [entryOf, granting, hh, corsTokenList_intercalate fun n hn => (hnames n hn).1]
    exact (map_congr_left fun n hn =>
      (jsLower_of_isToken (hnames n hn).1).trans (hnames n hn).2).trans (map_id _)

/-! ## Runs with the server -/

section Runs

/-- The preflights of a log were granted. -/
def Answered (o : Options) (names : List Text) (log : List Sent) : Prop :=
  ∀ s ∈ log, s.options.preflight → s.reply = some (granting o names)

theorem answered_send (h : Answered o names st.log) (u' : Line) (o₁ : Options) :
    Answered o names (send urls (probe o names v) st u' o₁).1.log := by
  intro s hs hp
  rcases mem_append.1 hs with hs | hs
  · exact h s hs hp
  · obtain rfl := mem_singleton.1 hs
    have hp : o₁.preflight := hp
    exact congrArg some (if_pos hp)

theorem admission_probe {target : Text} (hu : urls.canonical target = .ok u) (hstub : urls.stub u = false)
    (hmode : o'.mode = .cors) : admission urls (probe o names v) st target o' = .ok u := by
  rw [admission, hu]
  dsimp only
  rw [if_neg, hstub]
  · rfl
  · rw [hmode]
    rintro ⟨h, _⟩
    cases h

/-- The options of a hop that the server grants: the origin is not yet tainted, and the names
    that need a preflight are among the given ones. -/
structure Grantable (o : Options) (names : List Text) (o' : Options) : Prop where
  kind : o'.kind = .runtimeFetch
  mode : o'.mode = .cors
  preflight : o'.preflight = false
  origin : o'.origin = o.origin
  originTainted : o'.originTainted = false
  method : o'.method = o.method
  names : ∀ n ∈ corsUnsafeHeaderNames o'.headers o'.implicitHeaders, n ∈ names

theorem Grantable.corsRequest (h : Grantable o names o') : corsRequest o' := by
  rw [Fetch.corsRequest, corsMode, h.kind, h.mode, h.preflight]
  rfl

theorem Grantable.taint (h : Grantable o names o') (urls : Urls) (u : Line) :
    Grantable o names (taint urls u o') :=
  ⟨h.kind, h.mode, h.preflight, h.origin, h.originTainted, h.method, h.names⟩

theorem Grantable.corsOrigin (h : Grantable o names o') : corsOrigin o' = o.origin := by
  rw [Fetch.corsOrigin, h.originTainted, if_neg Bool.false_ne_true, h.origin]

theorem grantOf_probe (h : Grantable o names o') (st : State) (u v : Line) (names' : List Text) :
    ∃ g, grantOf urls (probe o names v) st u o' names' = some g ∧ g.reply = granting o names := by
  have hreply : (send urls (probe o names v) st u (preflightOptions o' names')).2.reply =
      some (granting o names) := rfl
  rw [grantOf]
  split
  · next hr => exact absurd (hreply.symm.trans hr) (Option.some_ne_none _)
  next r hr =>
  obtain rfl : granting o names = r := Option.some.inj (hreply.symm.trans hr)
  have hok : (200 ≤ (granting o names).status ∧ (granting o names).status ≤ 299) ∧
      corsCheck (granting o names).headers (Fetch.corsOrigin o').1
        (o'.credentials == .included) := by
    rw [h.corsOrigin]
    exact ⟨⟨le_refl 200, Nat.le_add_right 200 99⟩, corsCheck_granting _⟩
  rw [dif_pos hok]
  exact ⟨_, rfl, rfl⟩

variable (hmethod : isToken o.method) (hnames : ∀ n ∈ names, isToken n ∧ lower n = n)
  (hu : urls.canonical u.1 = .ok u) (hstub : urls.stub u = false)

include hmethod hnames

theorem allows_granting {names' : List Text} (hsub : ∀ n ∈ names', n ∈ names) (now : Int)
    (credentials : Bool) : corsPreflightAllows (entryOf (granting o names).headers now) o.method
      names' credentials := by
  obtain ⟨hm, hh⟩ := entryOf_granting hmethod hnames now
  rw [corsPreflightAllows, hm, hh, Bool.and_eq_true, all_eq_true]
  refine ⟨?_, fun n hn => ?_⟩
  · rw [Bool.or_eq_true]
    exact .inr (contains_iff_mem.2 (.head _))
  · rw [Bool.or_eq_true]
    exact .inl (contains_iff_mem.2 (hsub n hn))

include hu hstub

theorem runCORSPreflight_probe (h : Grantable o names o') (hlog : Answered o names st.log) :
    (runCORSPreflight urls (probe o names v) st u o'
      (corsUnsafeHeaderNames o'.headers o'.implicitHeaders)).2 ∧
    Answered o names (runCORSPreflight urls (probe o names v) st u o'
      (corsUnsafeHeaderNames o'.headers o'.implicitHeaders)).1.log := by
  rw [runCORSPreflight]
  split_ifs
  · exact ⟨rfl, hlog⟩
  obtain ⟨g, hg, hreply⟩ := @grantOf_probe urls _ _ _ h st u v
    (corsUnsafeHeaderNames o'.headers o'.implicitHeaders)
  have hallows : corsPreflightAllows g.entry o'.method
      (corsUnsafeHeaderNames o'.headers o'.implicitHeaders) (o'.credentials == .included) := by
    rw [Grant.entry, hreply, h.method]
    exact allows_granting hmethod hnames h.names _ _
  rw [admission_probe hu hstub rfl]
  dsimp only
  rw [hg]
  dsimp only
  rw [if_pos hallows]
  exact ⟨rfl, answered_send hlog _ _⟩

theorem ensurePreflight_probe (h : Grantable o names o') (hlog : Answered o names st.log) :
    (ensurePreflight urls (probe o names v) st u o').2 ∧
      Answered o names (ensurePreflight urls (probe o names v) st u o').1.log := by
  rw [ensurePreflight]
  split_ifs
  · exact runCORSPreflight_probe hmethod hnames hu hstub h hlog
  · exact ⟨rfl, hlog⟩

theorem hopStep_probe (h : Grantable o names o') (hlog : Answered o names st.log) (v : Line) :
    ∃ st' k, hopStep urls (probe o names v) st u.1 o' =
        (st', [k], replyStep u (taint urls u o') (leading v)) ∧
      k.sent.url = u ∧ k.sent.options = taint urls u o' ∧ Answered o names k.past ∧
      Answered o names st'.log := by
  have hlog' : Answered o names (quiet.apply st).log := by
    rw [show (quiet.apply st).log = st.log from append_nil _]
    exact hlog
  obtain ⟨hok, hpast⟩ := ensurePreflight_probe (v := v) hmethod hnames hu hstub
    (h.taint urls u) hlog'
  have hothers : ((probe o names v).others st.log.length).apply st = quiet.apply st := rfl
  generalize hp : ensurePreflight urls (probe o names v) (quiet.apply st) u (taint urls u o') = p
    at hok hpast
  obtain ⟨st₁, allowed⟩ := p
  obtain rfl : allowed := hok
  have hreply : (send urls (probe o names v) st₁ u (taint urls u o')).2.reply = some (leading v) :=
    congrArg some (if_neg (Bool.eq_false_iff.1 h.preflight))
  refine ⟨(send urls (probe o names v) st₁ u (taint urls u o')).1,
    ⟨st₁.log, (send urls (probe o names v) st₁ u (taint urls u o')).2⟩, ?_, rfl, rfl, hpast,
    answered_send hpast u (taint urls u o')⟩
  rw [hopStep, hothers]
  rw [admission_probe hu hstub h.mode]
  dsimp only
  rw [hp]
  dsimp only
  rw [attempt_of_cors (h.taint urls u).corsRequest, hreply]

omit hu hstub

theorem not_allowed_probe {past : List Sent} {now : Int} {names' : List Text} {n : Text}
    (hpast : Answered o names past) (hn : n ∈ names') (hnot : n ∉ names)
    (hstar : "*".toList ∈ names → o'.credentials = .included) :
    ¬ Allowed past now u o' names' := by
  rintro ⟨g, hg, _, _, _, hc, hallow, _⟩
  have hreply : g.reply = granting o names :=
    Option.some.inj (g.reply_eq.symm.trans (hpast _ hg g.preflight))
  rw [corsPreflightAllows, Bool.and_eq_true, all_eq_true] at hallow
  have := hallow.2 n hn
  rw [Grant.entry, hreply, (entryOf_granting hmethod hnames _).2, Bool.or_eq_true,
    contains_iff_mem] at this
  refine this.elim hnot fun hw => ?_
  rw [Bool.and_eq_true, contains_iff_mem, hc] at hw
  rw [hstar hw.2] at hw
  exact absurd hw.1 (by decide)

end Runs

/-! ## Guarded requests -/

/-- A `fetch` can be sent to an address that is not of the origin of its document: it starts
    with one, or it is sent at all and follows redirects. -/
def CanLeave (urls : Urls) (target : Text) (q : Init) : Prop :=
  q.kind = .runtimeFetch ∧ q.body = .accepted ∧ ∃ u, urls.canonical target = .ok u ∧
    urls.stub u = false ∧ (urls.origin u ≠ (q.options urls).origin ∨
      ((q.options urls).redirect = .follow ∧ ∃ t v, urls.canonical t = .ok v ∧
        urls.stub v = false ∧ urls.origin v ≠ (q.options urls).origin))

theorem hops_transportFetchHop (urls : Urls) (w : World) (left : Nat) (st : State) (target : Text)
    (o : Options) : ∃ rest,
    (transportFetchHop urls w left st target o).2.1 = (hopStep urls w st target o).2.1 ++ rest := by
  rw [transportFetchHop.eq_def]
  obtain ⟨⟨st', hops, step⟩, hstep⟩ : ∃ x, hopStep urls w st target o = x := ⟨_, rfl⟩
  rw [hstep]
  cases step with
  | ends outcome => exact ⟨[], (append_nil _).symm⟩
  | redirects location u' o' status =>
    cases left with
    | zero => exact ⟨[], (append_nil _).symm⟩
    | succ left =>
      dsimp only
      cases nextURL urls location u' o' with
      | none => exact ⟨[], (append_nil _).symm⟩
      | some next => exact ⟨_, rfl⟩

variable {n target : Text}

theorem ne_authorization (hn : n ∈ unsafeRequestHeaderNames (authorHeaders o))
    (hnot : n ∉ corsUnsafeHeaderNames o.headers o.implicitHeaders) : n ≠ "authorization" := by
  rintro rfl
  obtain ⟨e, he, hname⟩ := mem_map.1 (mem_of_mem_unsafeRequestHeaderNames hn)
  obtain ⟨he, himp⟩ := mem_filter.1 he
  refine hnot (mem_corsUnsafeHeaderNames.2 ⟨hname ▸ mem_map_of_mem he, ?_, rfl⟩)
  rw [Bool.not_eq_true', hname, ← Bool.not_eq_true, contains_iff_mem] at himp
  exact himp

theorem not_guarded_of_hop {names' : List Text} {before after hops : List Hop} {k : Hop}
    {outcome : Outcome} (hmethod : isToken o.method)
    (hnames : ∀ n ∈ names', isToken n ∧ lower n = n) (hkind : q.kind = .runtimeFetch)
    (hhops : hops = before ++ k :: after) (hforeign : Foreign urls q k)
    (hpast : Answered o names' k.past)
    (hn : n ∈ unsafeRequestHeaderNames (authorHeaders k.sent.options)) (hnot : n ∉ names')
    (hstar : "*".toList ∈ names' → k.sent.options.credentials = .included) :
    ¬ Guarded urls q hops outcome := by
  intro hg
  have hfirst : ∃ j ∈ before ++ [k], Foreign urls q j :=
    ⟨k, mem_append_right _ (.head _), hforeign⟩
  have := (hg.preflighted hkind before k after hhops hfirst (.inr (ne_nil_of_mem hn))).2
  exact not_allowed_probe hmethod hnames hpast hn hnot hstar this

def State.empty : State := ⟨CookieJar.empty, [], []⟩

open State

theorem answered_empty : Answered o names empty.log := fun _ hs => nomatch hs

theorem recorded_empty : Recorded empty := fun _ hg => nomatch hg

theorem transportFetch_accepted (w : World) (hbody : q.body = .accepted)
    (hu : urls.canonical target = .ok u) : transportFetch urls w st target q =
      transportFetchHop urls w 20 st u.1 (q.options urls) := by
  rw [transportFetch, hu]
  rw [hbody]

theorem replyStep_leading (hcred : urls.canonical v.1 = .ok v)
    (ht : (taint urls u o).tainted = false) (hfollow : o.redirect = .follow) :
    replyStep u (taint urls u o) (leading v) = .redirects v.1 u (taint urls u o) 307 := by
  have hlocation : redirectLocation (leading v) = some v.1 := by
    have hget : (leading v).headers.get "Location" = some v.1 :=
      get_cons_self (by decide) not_mem_nil
    have hne : (!v.1.isEmpty) := by
      rw [Bool.not_eq_true', isEmpty_eq_false_iff]
      exact urls.canonical_ne_nil hcred
    rw [redirectLocation, if_pos (by rfl), hget, Option.filter_some, if_pos hne]
  rw [replyStep, refused, ht, Bool.and_false, Bool.false_and, hlocation]
  dsimp only [redirectStep]
  rw [show (taint urls u o).redirect = .follow from hfollow]
  rfl

theorem mem_unsafe_of_headers_eq (hheaders : o'.headers = o.headers.restrict (· != "authorization"))
    (himplicit : o'.implicitHeaders = o.implicitHeaders) (hne : n ≠ "authorization")
    (hn : n ∈ unsafeRequestHeaderNames (authorHeaders o)) :
    n ∈ unsafeRequestHeaderNames (authorHeaders o') := by
  have hnever (value : Text) : isSafelisted "authorization" value = false := Bool.and_false _
  have := mem_unsafeRequestHeaderNames_delete hnever hne hn
  rw [authorHeaders, restrict_restrict] at this
  rw [authorHeaders, hheaders, himplicit, restrict_restrict]
  simpa only [Bool.and_comm] using this

theorem mode_of_corsRequest (h : corsRequest o) : o.mode = .cors := by
  rw [corsRequest, corsMode, Bool.and_eq_true, Bool.and_eq_true] at h
  exact beq_iff_eq.1 h.1.2

theorem nextURL_canonical (hv : urls.canonical v.1 = .ok v) (u : Line) (o : Options) :
    nextURL urls v.1 u o = some v := by
  rw [nextURL, urls.join_canonical u hv]
  dsimp only
  rw [hv]
  dsimp only
  rw [Bool.and_false, if_neg Bool.false_ne_true]

theorem hops_of_redirect {w : World} {location : Text} {st' : State} {hops : List Hop}
    {o₁ : Options} {status : Nat}
    (hstep : hopStep urls w st target o = (st', hops, .redirects location u o₁ status))
    (hnext : nextURL urls location u o₁ = some v) (left : Nat) :
    (transportFetchHop urls w (left + 1) st target o).2.1 =
      hops ++ (transportFetchHop urls w left st' v.1 (redirectOptions urls u v status o₁)).2.1 := by
  rw [transportFetchHop.eq_def, hstep]
  dsimp only
  rw [hnext]

theorem Chain.canLeave {left : Nat} {c : List Hop} {outcome : Outcome} {k : Hop}
    (h : Chain urls left (q.options urls) c outcome)
    (hfirst : ∀ k ∈ c.head?, urls.canonical target = .ok k.sent.url) (hkind : q.kind = .runtimeFetch)
    (hbody : q.body = .accepted) (hk : k ∈ c) (hf : Foreign urls q k) : CanLeave urls target q := by
  obtain ⟨_, hfits, -⟩ := h.exists_fits hk
  cases h with
  | unsent _ => cases hk
  | @last _ _ k' _ fits _ =>
    obtain rfl := mem_singleton.1 hk
    exact ⟨hkind, hbody, _, hfirst k rfl, fits.stub, .inl hf⟩
  | @redirect _ _ k' _ _ _ _ fits _ follow _ _ =>
    refine ⟨hkind, hbody, _, hfirst k' rfl, fits.stub, ?_⟩
    rcases mem_cons.1 hk with rfl | hk
    · exact .inl hf
    · exact .inr ⟨follow, _, _, hfits.canonical, hfits.stub, hf⟩

theorem guarded_of_covered {st : State} {w : World} (h : Recorded st)
    (hcors : corsRequest (q.options urls))
    (hcov : CanLeave urls target q → Covered (q.options urls)) :
    Guarded urls q (transportFetch urls w st target q).2.1
      (transportFetch urls w st target q).2.2 := by
  have hnil {outcome : Outcome} (hx : ∀ r v, outcome ≠ .exposed r v) : Guarded urls q [] outcome :=
    (Chain.unsent hx).guarded hcors fun _ ⟨k, hk, _⟩ => nomatch hk
  rw [transportFetch]
  split
  · exact hnil nofun
  next u hu =>
    cases hbody : q.body with
    | unreadable | tooLarge => exact hnil nofun
    | accepted =>
      obtain ⟨hfirst, hchain⟩ := @transportFetchHop_chain urls w st _ u.1 _ _ 20 h hcors rfl
      refine hchain.guarded hcors fun hkind ⟨k, hk, hf⟩ => hcov ?_
      refine hchain.canLeave (fun k' hk' => ?_) hkind hbody hk hf
      rw [hu, ← hfirst k' hk', urls.canonical_self hu]

theorem isToken_of_mem_corsUnsafe
    (hn : n ∈ corsUnsafeHeaderNames q.headers q.implicitHeaders) : isToken n ∧ lower n = n := by
  obtain ⟨e, he, rfl⟩ := mem_map.1 (mem_corsUnsafeHeaderNames.1 hn).1
  exact q.headers_token e he

theorem grantable_redirectOptions {names : List Text} (h : Grantable o names o)
    (hlower : ∀ e ∈ o.headers.list, lower e.1 = e.1) (hown : urls.origin u = o.origin)
    (hforeign : urls.origin v ≠ o.origin) :
    Grantable o names (redirectOptions urls u v 307 (taint urls u o)) ∧
      (redirectOptions urls u v 307 (taint urls u o)).headers =
        o.headers.restrict (· != "authorization") := by
  have hm : redirectMethod 307 o.method = o.method := rfl
  have hheaders : (redirectOptions urls u v 307 (taint urls u o)).headers =
      o.headers.restrict (· != "authorization") := by
    rw [redirectOptions, redirectHeaders]
    rw [show redirectMethod 307 (taint urls u o).method = (taint urls u o).method from hm,
      bne_self_eq_false, if_pos (bne_iff_ne.2 (hown ▸ hforeign))]
    rfl
  refine ⟨⟨h.kind, h.mode, h.preflight, rfl, ?_, rfl, fun n hn => h.names n ?_⟩, hheaders⟩
  · rw [redirectOptions, show (taint urls u o).originTainted = false from h.originTainted,
      show (taint urls u o).origin = o.origin from rfl, hown, bne_self_eq_false, Bool.and_false]
    rfl
  · rw [hheaders] at hn
    have hne : (fun m => m != "authorization".toList) n := by
      obtain ⟨e, he, rfl⟩ := mem_map.1 (mem_corsUnsafeHeaderNames.1 hn).1
      exact (mem_filter.1 he).2
    exact (@mem_corsUnsafeHeaderNames_restrict o.headers n _ (· != "authorization") hlower hne).1 hn

section Uncovered

variable {target n : Text} (hcors : corsRequest (q.options urls)) (hkind : q.kind = .runtimeFetch)
  (hbody : q.body = .accepted) (hu : urls.canonical target = .ok u) (hstub : urls.stub u = false)
  (hn : n ∈ unsafeRequestHeaderNames (authorHeaders (q.options urls)))
  (hnot : n ∉ corsUnsafeHeaderNames q.headers q.implicitHeaders)
  (hstar : "*".toList ∈ corsUnsafeHeaderNames q.headers q.implicitHeaders →
    (q.options urls).credentials = .included)

/-- The server of a request: it grants what `corsUnsafeHeaderNames` asks for. -/
def probeOf (urls : Urls) (q : Init) (v : Line) : World :=
  probe (q.options urls) (corsUnsafeHeaderNames q.headers q.implicitHeaders) v

include hcors hkind in
theorem grantable_options : Grantable (q.options urls)
    (corsUnsafeHeaderNames q.headers q.implicitHeaders) (q.options urls) :=
  ⟨hkind, mode_of_corsRequest hcors, rfl, rfl, rfl, rfl, fun _ hm => hm⟩

include hcors hkind hbody hu hstub hn hnot hstar

theorem not_guarded_of_foreign (hforeign : urls.origin u ≠ (q.options urls).origin) :
    ¬ Guarded urls q (transportFetch urls (probeOf urls q u) empty target q).2.1
      (transportFetch urls (probeOf urls q u) empty target q).2.2 := by
  have hnames := fun m hm => @isToken_of_mem_corsUnsafe q m hm
  obtain ⟨st', k, hstep, hurl, hopt, hpast, -⟩ := hopStep_probe q.method_token hnames
    (urls.canonical_self hu) hstub (grantable_options hcors hkind) answered_empty u
  obtain ⟨rest, hrest⟩ := hops_transportFetchHop urls (probeOf urls q u) 20 empty u.1
    (q.options urls)
  rw [probeOf, hstep] at hrest
  rw [transportFetch_accepted _ hbody hu]
  refine not_guarded_of_hop q.method_token hnames hkind (hrest.trans rfl : _ = [] ++ k :: rest) ?_
    hpast ?_ hnot ?_
  · rw [Foreign, hurl]
    exact hforeign
  · rw [hopt]
    exact hn
  · rw [hopt]
    exact hstar

theorem not_guarded_of_redirect (hown : urls.origin u = (q.options urls).origin)
    (hfollow : (q.options urls).redirect = .follow) (hv : urls.canonical v.1 = .ok v)
    (hvstub : urls.stub v = false) (hforeign : urls.origin v ≠ (q.options urls).origin) :
    ¬ Guarded urls q (transportFetch urls (probeOf urls q v) empty target q).2.1
      (transportFetch urls (probeOf urls q v) empty target q).2.2 := by
  have hnames := fun m hm => @isToken_of_mem_corsUnsafe q m hm
  have hgrant := grantable_options hcors hkind
  -- The first hop stays with the origin, so it is not tainted and needs no preflight.
  obtain ⟨st', k, hstep, -, -, -, hlog⟩ := hopStep_probe q.method_token hnames
    (urls.canonical_self hu) hstub hgrant answered_empty v
  have ht : (taint urls u (q.options urls)).tainted = false := by
    rw [taint, hown, bne_self_eq_false, Bool.and_false]
    rfl
  rw [replyStep_leading hv ht hfollow] at hstep
  -- The second goes to the foreign address with all headers but `Authorization`.
  obtain ⟨hgrant', hheaders⟩ := grantable_redirectOptions hgrant
    (fun e he => (q.headers_token e he).2) hown hforeign
  obtain ⟨_, k', hstep', hurl, hopt, hpast, -⟩ := hopStep_probe q.method_token hnames hv hvstub
    hgrant' hlog v
  obtain ⟨rest, hrest⟩ := hops_transportFetchHop urls (probeOf urls q v) 19 st' v.1
    (redirectOptions urls u v 307 (taint urls u (q.options urls)))
  rw [probeOf, hstep'] at hrest
  have hhops := hops_of_redirect hstep (nextURL_canonical hv _ _) 19
  rw [hrest] at hhops
  rw [transportFetch_accepted _ hbody hu]
  refine not_guarded_of_hop q.method_token hnames hkind (hhops.trans rfl : _ = [k] ++ k' :: rest) ?_
    hpast ?_ hnot ?_
  · rw [Foreign, hurl]
    exact hforeign
  · rw [hopt]
    exact mem_unsafe_of_headers_eq hheaders rfl (ne_authorization hn hnot) hn
  · rw [hopt]
    exact hstar

end Uncovered

/-- A request under CORS is guarded in every world exactly when its headers are covered, if it
    can leave the origin of its document. -/
theorem guarded_iff (urls : Urls) (target : Text) (q : Init) (hcors : corsRequest (q.options urls)) :
    (∀ w st, Recorded st → Guarded urls q (transportFetch urls w st target q).2.1
      (transportFetch urls w st target q).2.2) ↔
      (CanLeave urls target q → Covered (q.options urls)) := by
  refine ⟨?_, fun hcov w st hst => guarded_of_covered hst hcors hcov⟩
  rintro hg ⟨hkind, hbody, u, hu, hstub, hleave⟩
  by_contra hcov
  rw [Covered, not_or, not_and_not_right] at hcov
  obtain ⟨hn, hstar⟩ := hcov
  simp only [not_forall] at hn
  obtain ⟨n, hn, hnot⟩ := hn
  by_cases hown : urls.origin u = (q.options urls).origin
  · obtain ⟨hfollow, t, v, hv, hvstub, hforeign⟩ := hleave.resolve_left (not_not.2 hown)
    exact not_guarded_of_redirect hcors hkind hbody hu hstub hn hnot hstar hown hfollow
      (urls.canonical_self hv) hvstub hforeign (hg _ _ recorded_empty)
  · exact not_guarded_of_foreign hcors hkind hbody hu hstub hn hnot hstar hown
      (hg _ _ recorded_empty)

/-! ## Two requests -/

/-- Every nonempty line is an address, and an origin of its own. -/
def plainUrls : Urls where
  canonical t := if h : '\n' ∉ t ∧ t ≠ [] then .ok ⟨t, h.1⟩ else .error []
  origin u := u
  join l _ := some (l, false)
  stub _ := false
  cookies := oneHost
  canonical_self {t u} h := by
    split_ifs at h with ht
    obtain rfl := Except.ok.inj h
    exact dif_pos ht
  canonical_ne_nil {t u} h := by
    split_ifs at h with ht
    obtain rfl := Except.ok.inj h
    exact ht.2
  join_canonical _ _ := rfl

theorem canonical_plainUrls {t : Text} (h : '\n' ∉ t ∧ t ≠ []) :
    plainUrls.canonical t = .ok ⟨t, h.1⟩ := dif_pos h

/-- The address of the page in the examples. -/
def homeLine : Line := ⟨"https://a.test", newline_notMem rfl⟩

/-- The tab of the page in the examples. -/
def homeTab : Line := ⟨"tab", newline_notMem rfl⟩

/-- A `fetch` of `https://a.test` with one header. -/
def fetchWith (name value : Text) (h : isToken name ∧ lower name = name) : Init where
  tabId := homeTab
  kind := .runtimeFetch
  opaqueOrigin := false
  entryOpaque := false
  documentUrl := homeLine
  submitReferrer := none
  mode := .cors
  method := "GET"
  headers := ⟨[(name, value)]⟩
  implicitHeaders := []
  credentials := none
  redirect := none
  body := .accepted
  method_token := by decide
  headers_token := by
    intro e he
    rw [mem_singleton.1 he]
    exact h

/-- A header of the page's own needs a preflight, and has one before it is sent. -/
theorem own_header_guarded : corsRequest ((fetchWith "x-own" "1" (by decide)).options plainUrls) ∧
    ∀ w st, Recorded st → Guarded plainUrls (fetchWith "x-own" "1" (by decide))
      (transportFetch plainUrls w st "https://b.test" (fetchWith "x-own" "1" (by decide))).2.1
      (transportFetch plainUrls w st "https://b.test" (fetchWith "x-own" "1" (by decide))).2.2 :=
  ⟨rfl, (guarded_iff plainUrls "https://b.test"
    (fetchWith "x-own" "1" (by decide)) rfl).2 fun _ => .inl (by decide)⟩

/-- A value that is none of `Accept-Language` is sent without a preflight. -/
theorem bad_language_not_guarded : ¬ Guarded plainUrls (fetchWith "accept-language" "!" (by decide))
      (transportFetch plainUrls (probeOf plainUrls (fetchWith "accept-language" "!" (by decide))
        ⟨"https://b.test", by decide⟩) empty "https://b.test"
        (fetchWith "accept-language" "!" (by decide))).2.1
      (transportFetch plainUrls (probeOf plainUrls (fetchWith "accept-language" "!" (by decide))
        ⟨"https://b.test", by decide⟩) empty "https://b.test"
        (fetchWith "accept-language" "!" (by decide))).2.2 := by
  have hn : "accept-language".toList ∈ unsafeRequestHeaderNames (authorHeaders
      ((fetchWith "accept-language" "!" (by decide)).options plainUrls)) := by decide
  have hnot : "accept-language".toList ∉ corsUnsafeHeaderNames
      (fetchWith "accept-language" "!" (by decide)).headers [] := by decide
  exact not_guarded_of_foreign rfl rfl rfl (canonical_plainUrls (by decide)) rfl hn hnot
    (fun _ => rfl) (by decide)

end ZeroProxy.Worker.Fetch
