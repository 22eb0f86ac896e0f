import ZeroProxy.Worker.Fetch
import Mathlib.Data.List.Dedup

/-!
# The guarantees of CORS

What every chain of requests under CORS looks like, whatever the servers answer, and what a page is
promised about it, with the headers that need a preflight taken from the Fetch standard.
-/

namespace ZeroProxy.Worker.Fetch

section

open Http List Option Text

variable {urls : Urls} {w : World} {st : State} {o : Options} {u : Line} {names : List Text}

/-! ## The cache of preflights -/

theorem preflightKey_injective {t t' a a' u u' : Line} {c c' : Bool}
    (h : preflightKey t a u c = preflightKey t' a' u' c') : t = t' ∧ a = a' ∧ u = u' ∧ c = c' := by
  have hbit (c : Bool) : '\n' ∉ (if c then "1".toList else "0") := by
    cases c <;> decide
  have hsplit (t a u : Line) (c : Bool) : (preflightKey t a u c).splitOn '\n' =
      [t.1, a.1, u.1, if c then "1" else "0"] := by
    refine splitOn_intercalate '\n' (fun l hl => ?_) (cons_ne_nil _ _)
    simp only [mem_cons, not_mem_nil, or_false] at hl
    rcases hl with rfl | rfl | rfl | rfl
    exacts [t.2, a.2, u.2, hbit c]
  have hl := congrArg (splitOn '\n') h
  rw [hsplit, hsplit] at hl
  injection hl with ht hl
  injection hl with ha hl
  injection hl with hu hl
  injection hl with hc _
  refine ⟨Subtype.ext ht, Subtype.ext ha, Subtype.ext hu, ?_⟩
  cases c <;> cases c' <;> first | rfl | (revert hc; decide)

/-- Every cached preflight was sent. -/
def Recorded (st : State) : Prop := ∀ g ∈ st.cache, g.request ∈ st.log

theorem Recorded.apply (h : Recorded st) (i : Interference) : Recorded (i.apply st) := by
  intro g hg
  rcases mem_append.1 hg with hg | hg
  · exact mem_append_left _ (h g (mem_of_mem_filter hg))
  · exact mem_append_right _ (i.grants_sent g hg)

theorem Recorded.send (h : Recorded st) : Recorded (send urls w st u o).1 :=
  fun g hg => mem_append_left _ (h g hg)

variable {g : Grant}

theorem mem_remember {cache : List Grant} {g' : Grant} (h : g' ∈ remember cache g) :
    g' = g ∨ g' ∈ cache := by
  have hput {l : List Grant} (hl : ∀ k ∈ l, k ∈ cache)
      (h : g' ∈ Keyed.put Grant.key (fun _ => g) g l) : g' = g ∨ g' ∈ cache := by
    rcases Keyed.mem_or_of_mem_put h with h | h | ⟨_, _, h⟩
    exacts [.inr (hl _ h), .inl h, .inl h]
  rw [remember] at h
  split_ifs at h with hage hfull
  · exact .inr h
  · exact hput (fun k hk => mem_of_mem_tail hk) h
  · exact hput (fun k hk => hk) h

/-- A preflight of the same tab, origin, URL and credentials mode was sent before and allows
    a request: it was the last thing sent, or its lifetime is not over. -/
def Allowed (past : List Sent) (now : Int) (u : Line) (o : Options) (names : List Text) : Prop :=
  ∃ g : Grant, g.request ∈ past ∧ g.tabId = o.tabId ∧ g.origin = corsOrigin o ∧ g.url = u ∧
    g.credentials = (o.credentials == .included) ∧
    corsPreflightAllows g.entry o.method names g.credentials ∧
    (past.getLast? = some g.request ∨ now < g.entry.expires)

variable {target : Text}

theorem admission_spec (h : admission urls w st target o = .ok u) :
    urls.canonical target = .ok u ∧ urls.stub u = false := by
  rw [admission] at h
  split at h
  · cases h
  · next v hv =>
    split_ifs at h with _ hstub
    obtain rfl := Except.ok.inj h
    rw [Bool.or_eq_true, not_or, Bool.not_eq_true] at hstub
    exact ⟨hv, hstub.1⟩

theorem allowed_of_cachedGrant (h : Recorded st) (hg : cachedGrant w st u o names = some g) :
    Allowed st.log (w.clock st.log.length) u o names := by
  obtain ⟨hfind, hg⟩ := filter_eq_some_iff.1 hg
  rw [Bool.and_eq_true, decide_eq_true_eq] at hg
  have hkey := Keyed.key_of_lookup hfind
  rw [Grant.key] at hkey
  obtain ⟨ht, ha, hu, hc⟩ := preflightKey_injective hkey
  refine ⟨g, h g (Keyed.mem_of_lookup hfind), ht, ha, hu, hc, ?_, .inr hg.1⟩
  rw [hc]
  exact hg.2

theorem grantOf_spec (h : grantOf urls w st u o names = some g) :
    g.request = (send urls w st u (preflightOptions o names)).2 ∧ g.tabId = o.tabId ∧
      g.origin = corsOrigin o ∧ g.url = u ∧ g.credentials = (o.credentials == .included) := by
  rw [grantOf] at h
  split at h
  · cases h
  · split_ifs at h with hok
    cases h
    exact ⟨rfl, rfl, rfl, rfl, rfl⟩

theorem runCORSPreflight_spec (h : Recorded st) (hu : urls.canonical u.1 = .ok u)
    (names : List Text) :
    Recorded (runCORSPreflight urls w st u o names).1 ∧
      ((runCORSPreflight urls w st u o names).2 →
        Allowed (runCORSPreflight urls w st u o names).1.log
          (w.clock (runCORSPreflight urls w st u o names).1.log.length) u o names) := by
  rw [runCORSPreflight]
  split_ifs with hcached
  · obtain ⟨g, hg⟩ := isSome_iff_exists.1 hcached
    exact ⟨h, fun _ => allowed_of_cachedGrant h hg⟩
  split
  · exact ⟨h, nofun⟩
  next v hv =>
    obtain rfl : u = v := Except.ok.inj (hu.symm.trans (admission_spec hv).1)
    split
    · exact ⟨h.send, nofun⟩
    next g hg =>
      obtain ⟨hreq, ht, ha, hgu, hc⟩ := grantOf_spec hg
      have hmem : g.request ∈ (send urls w st u (preflightOptions o names)).1.log := by
        rw [hreq]
        exact mem_append_right _ (.head _)
      split_ifs with hallow
      · refine ⟨fun k hk => ?_, fun _ => ⟨g, hmem, ht, ha, hgu, hc, hc ▸ hallow, .inl ?_⟩⟩
        · rcases mem_remember hk with rfl | hk
          exacts [hmem, h.send k hk]
        · rw [hreq]
          exact getLast?_concat
      · exact ⟨h.send, nofun⟩

/-! ## Chains -/

/-- A request needs a preflight by the rules of the code. -/
def NeedsPreflight (o : Options) : Prop :=
  o.tainted ∧ o.kind ≠ .elementCors ∧ (corsSafelistedMethod o.method = false ∨
    corsUnsafeHeaderNames o.headers o.implicitHeaders ≠ [])

theorem ensurePreflight_spec (h : Recorded st) (hu : urls.canonical u.1 = .ok u)
    (hcors : corsRequest o) :
    Recorded (ensurePreflight urls w st u o).1 ∧
      ((ensurePreflight urls w st u o).2 → NeedsPreflight o →
        Allowed (ensurePreflight urls w st u o).1.log
          (w.clock (ensurePreflight urls w st u o).1.log.length) u o
          (corsUnsafeHeaderNames o.headers o.implicitHeaders)) := by
  rw [ensurePreflight]
  split_ifs with hneed
  · obtain ⟨hr, ha⟩ := runCORSPreflight_spec (w := w) (o := o) h hu
      (corsUnsafeHeaderNames o.headers o.implicitHeaders)
    exact ⟨hr, fun hok _ => ha hok⟩
  refine ⟨h, fun _ ⟨ht, hk, hm⟩ => (hneed ?_).elim⟩
  rw [hcors, ht, Bool.and_eq_true]
  refine ⟨bne_iff_ne.2 hk, ?_⟩
  rcases hm with hm | hm
  · rw [hm]; rfl
  · rw [Bool.or_eq_true]
    exact .inr (by simpa using hm)

/-- What a hop sends, given its options before its own taint. -/
structure Fits (urls : Urls) (o : Options) (h : Hop) : Prop where
  canonical : urls.canonical h.sent.url.1 = .ok h.sent.url
  stub : urls.stub h.sent.url = false
  options : h.sent.options = taint urls h.sent.url o
  origin : h.sent.origin = sentOrigin urls h.sent.url h.sent.options
  allowed : NeedsPreflight h.sent.options → Allowed h.past h.sent.now h.sent.url h.sent.options
    (corsUnsafeHeaderNames h.sent.options.headers h.sent.options.implicitHeaders)

/-- The response of a hop was not refused. -/
def Passed (h : Hop) (r : Response) : Prop :=
  h.sent.reply = some r ∧ refused h.sent.options r = false

/-- The hops of a request with the given options that may follow `left` redirects. -/
inductive Chain (urls : Urls) : Nat → Options → List Hop → Outcome → Prop
  | unsent {left o outcome} (h : ∀ r u, outcome ≠ .exposed r u) : Chain urls left o [] outcome
  | last {left o h outcome} (fits : Fits urls o h)
      (passed : ∀ r u, outcome = .exposed r u → Passed h r) : Chain urls left o [h] outcome
  | redirect {left o h r next rest outcome} (fits : Fits urls o h) (passed : Passed h r)
      (follow : o.redirect = .follow) (head : ∀ k ∈ rest.head?, k.sent.url = next)
      (chain : Chain urls left (redirectOptions urls h.sent.url next r.status h.sent.options) rest
        outcome) : Chain urls (left + 1) o (h :: rest) outcome

theorem corsRequest_taint : corsRequest (taint urls u o) = corsRequest o := rfl

theorem corsRequest_redirectOptions {next : Line} {status : Nat} :
    corsRequest (redirectOptions urls u next status o) = corsRequest o := rfl

theorem needsRestart_eq_false (h : corsRequest o) (r : Response) :
    needsRestart w u o r = false := by
  have hk : (o.kind == .document false) = false := by
    rw [corsRequest, corsMode] at h
    cases hk : o.kind with
    | document f => rw [hk] at h; cases f <;> cases h
    | runtimeFetch | elementCors | subresource => rfl
  rw [needsRestart, hk]
  rfl

theorem attempt_of_cors (h : corsRequest o) :
    attempt urls w st u o = ((send urls w st u o).1, [⟨st.log, (send urls w st u o).2⟩],
      match (send urls w st u o).2.reply with
      | none => .inl (rejected o)
      | some r => .inr (u, o, r)) := by
  rw [attempt]
  cases hr : (send urls w st u o).2.reply with
  | none => simp [hr]
  | some r =>
    simp [hr, needsRestart_eq_false h]

theorem rejected_ne_exposed (o : Options) (r : Response) (u : Line) : rejected o ≠ .exposed r u := by
  rw [rejected]
  split_ifs <;> nofun

variable {outcome : Outcome}

theorem admission_ne_exposed
    (h : admission urls w st target o = .error outcome) (r : Response) (u : Line) :
    outcome ≠ .exposed r u := by
  rw [admission] at h
  split at h
  · cases h; nofun
  · split_ifs at h <;> (cases h; nofun)

variable {hops : List Hop}

theorem hopStep_cases (h : Recorded st) (hcors : corsRequest o) {st' : State} {step : Step}
    (hrun : hopStep urls w st target o = (st', hops, step)) :
    Recorded st' ∧ ((hops = [] ∧ ∃ outcome, step = .ends outcome ∧ ∀ r u, outcome ≠ .exposed r u) ∨
      ∃ k, Fits urls o k ∧ urls.canonical target = .ok k.sent.url ∧ hops = [k] ∧
        ((k.sent.reply = none ∧ step = .ends (rejected k.sent.options)) ∨
          ∃ r, k.sent.reply = some r ∧ step = replyStep k.sent.url k.sent.options r)) := by
  rw [hopStep] at hrun
  have h₀ := h.apply (w.others st.log.length)
  generalize (w.others st.log.length).apply st = st₀ at hrun h₀
  cases hadm : admission urls w st₀ target o with
  | error e =>
    simp only [hadm] at hrun
    obtain ⟨rfl, rfl, rfl⟩ := hrun
    exact ⟨h₀, .inl ⟨rfl, e, rfl, admission_ne_exposed hadm⟩⟩
  | ok u =>
    simp only [hadm] at hrun
    obtain ⟨hcanon, hstub⟩ := admission_spec hadm
    have hcors' : corsRequest (taint urls u o) := hcors
    obtain ⟨h₁, hallow⟩ := ensurePreflight_spec (w := w) h₀ (urls.canonical_self hcanon) hcors'
    generalize ensurePreflight urls w st₀ u (taint urls u o) = p at hrun h₁ hallow
    obtain ⟨st₁, _ | _⟩ := p
    · obtain ⟨rfl, rfl, rfl⟩ := hrun
      exact ⟨h₁, .inl ⟨rfl, .error, rfl, nofun⟩⟩
    have hfits : Fits urls o ⟨st₁.log, (send urls w st₁ u (taint urls u o)).2⟩ :=
      ⟨urls.canonical_self hcanon, hstub, rfl, rfl, hallow rfl⟩
    have h₂ : Recorded (send urls w st₁ u (taint urls u o)).1 := Recorded.send h₁
    simp only [attempt_of_cors hcors'] at hrun
    cases hr : (send urls w st₁ u (taint urls u o)).2.reply with
    | none =>
      simp only [hr] at hrun
      obtain ⟨rfl, rfl, rfl⟩ := hrun
      exact ⟨h₂, .inr ⟨_, hfits, hcanon, rfl, .inl ⟨hr, rfl⟩⟩⟩
    | some r =>
      simp only [hr] at hrun
      obtain ⟨rfl, rfl, rfl⟩ := hrun
      exact ⟨h₂, .inr ⟨_, hfits, hcanon, rfl, .inr ⟨r, hr, rfl⟩⟩⟩

theorem replyStep_cases (u : Line) (o : Options) (r : Response) :
    (∃ outcome, replyStep u o r = .ends outcome ∧
      ∀ r' u', outcome = .exposed r' u' → r' = r ∧ refused o r = false) ∨
      ∃ location, replyStep u o r = .redirects location u o r.status ∧ refused o r = false ∧
        o.redirect = .follow := by
  rw [replyStep]
  cases hrefused : refused o r with
  | true => exact .inl ⟨.error, rfl, nofun⟩
  | false =>
    cases redirectLocation r with
    | none => exact .inl ⟨.exposed r u, rfl, fun r' u' h => ⟨(Outcome.exposed.inj h).1.symm, rfl⟩⟩
    | some location =>
      dsimp only [redirectStep]
      cases o.redirect with
      | error => exact .inl ⟨.error, rfl, nofun⟩
      | manual => exact .inl ⟨.opaqueRedirect, rfl, nofun⟩
      | follow => exact .inr ⟨location, rfl, rfl, rfl⟩

theorem canonical_of_nextURL {location : Text} {next : Line}
    (h : nextURL urls location u o = some next) : urls.canonical next.1 = .ok next := by
  rw [nextURL] at h
  split at h
  · cases h
  split at h
  · cases h
  · next v hv =>
    split_ifs at h
    rw [← some.inj h]
    exact urls.canonical_self hv

theorem transportFetchHop_cases (left : Nat) (h : Recorded st) (hcors : corsRequest o)
    (hrun : (transportFetchHop urls w left st target o).2 = (hops, outcome)) :
    (hops = [] ∧ ∀ r u, outcome ≠ .exposed r u) ∨
      ∃ k, Fits urls o k ∧ urls.canonical target = .ok k.sent.url ∧
        ((hops = [k] ∧ ∀ r u, outcome = .exposed r u → Passed k r) ∨
          ∃ left' st' r next rest, left = left' + 1 ∧ hops = k :: rest ∧ Passed k r ∧
            o.redirect = .follow ∧ Recorded st' ∧ urls.canonical next.1 = .ok next ∧
            (transportFetchHop urls w left' st' next.1
              (redirectOptions urls k.sent.url next r.status k.sent.options)).2 =
              (rest, outcome)) := by
  rw [transportFetchHop.eq_def] at hrun
  obtain ⟨⟨st', hops', step⟩, hstep⟩ : ∃ x, hopStep urls w st target o = x := ⟨_, rfl⟩
  rw [hstep] at hrun
  obtain ⟨h', hcase⟩ := hopStep_cases h hcors hstep
  rcases hcase with ⟨rfl, e, rfl, he⟩ | ⟨k, hfits, hcanon, rfl, ⟨_, rfl⟩ | ⟨r, hr, rfl⟩⟩
  · obtain ⟨rfl, rfl⟩ := Prod.mk.inj hrun
    exact .inl ⟨rfl, he⟩
  · obtain ⟨rfl, rfl⟩ := Prod.mk.inj hrun
    exact .inr ⟨k, hfits, hcanon, .inl ⟨rfl, fun r v hx => absurd hx (rejected_ne_exposed _ r v)⟩⟩
  refine .inr ⟨k, hfits, hcanon, ?_⟩
  rcases replyStep_cases k.sent.url k.sent.options r with ⟨e, he, hx⟩ | ⟨location, hgo, hpass, hfollow⟩
  · rw [he] at hrun
    obtain ⟨rfl, rfl⟩ := Prod.mk.inj hrun
    refine .inl ⟨rfl, fun r' v hv => ?_⟩
    obtain ⟨rfl, hpass⟩ := hx r' v hv
    exact ⟨hr, hpass⟩
  rw [hgo] at hrun
  cases left with
  | zero =>
    obtain ⟨rfl, rfl⟩ := Prod.mk.inj hrun
    exact .inl ⟨rfl, fun r v hx => absurd hx (rejected_ne_exposed _ r v)⟩
  | succ left =>
    dsimp only at hrun
    cases hnext : nextURL urls location k.sent.url k.sent.options with
    | none =>
      rw [hnext] at hrun
      obtain ⟨rfl, rfl⟩ := Prod.mk.inj hrun
      exact .inl ⟨rfl, nofun⟩
    | some next =>
      rw [hnext] at hrun
      obtain ⟨rfl, rfl⟩ := Prod.mk.inj hrun
      rw [hfits.options] at hfollow
      exact .inr ⟨left, st', r, next, _, rfl, rfl, ⟨hr, hpass⟩, hfollow, h',
        canonical_of_nextURL hnext, rfl⟩

theorem transportFetchHop_chain (left : Nat) (h : Recorded st) (hcors : corsRequest o)
    (hrun : (transportFetchHop urls w left st target o).2 = (hops, outcome)) :
    (∀ k ∈ hops.head?, urls.canonical target = .ok k.sent.url) ∧
      Chain urls left o hops outcome := by
  induction left using Nat.strong_induction_on generalizing st target o hops with
  | _ left ih =>
    rcases transportFetchHop_cases left h hcors hrun with ⟨rfl, hx⟩ | ⟨k, hk, hurl, hlast | hgo⟩
    · exact ⟨fun k hk => absurd hk (not_mem_none k), .unsent hx⟩
    · obtain ⟨rfl, hx⟩ := hlast
      exact ⟨fun k' hk' => some.inj hk' ▸ hurl, .last hk hx⟩
    obtain ⟨left', st', r, next, rest, rfl, rfl, hpass, hfollow, h', hnext, hrun'⟩ := hgo
    have hcors' : corsRequest (redirectOptions urls k.sent.url next r.status k.sent.options) := by
      rw [corsRequest_redirectOptions, hk.options, corsRequest_taint]
      exact hcors
    obtain ⟨hhead, hchain⟩ := ih left' (Nat.lt_succ_self _) h' hcors' hrun'
    refine ⟨fun k' hk' => some.inj hk' ▸ hurl, .redirect hk hpass hfollow (fun j hj => ?_)
      hchain⟩
    exact Except.ok.inj ((hhead j hj).symm.trans hnext)

/-! ## Along a chain -/

section Along

variable {left : Nat} {c : List Hop} {outcome : Outcome} {k : Hop}

theorem Fits.tainted (h : Fits urls o k) (hcors : corsRequest o)
    (ht : o.tainted ∨ urls.origin k.sent.url ≠ o.origin) : k.sent.options.tainted := by
  rw [h.options, taint, Bool.or_eq_true]
  refine ht.imp_right fun ht => ?_
  rw [hcors]
  exact bne_iff_ne.2 ht

theorem Fits.corsRequest_next (h : Fits urls o k) (hcors : corsRequest o) (next : Line)
    (status : Nat) : corsRequest (redirectOptions urls k.sent.url next status k.sent.options) := by
  rw [corsRequest_redirectOptions, h.options, corsRequest_taint]
  exact hcors

theorem Fits.origin_next (h : Fits urls o k) (next : Line) (status : Nat) :
    (redirectOptions urls k.sent.url next status k.sent.options).origin = o.origin := by
  rw [redirectOptions, h.options]
  rfl

theorem Chain.options (h : Chain urls left o c outcome) : ∀ k ∈ c, ∃ method headers t ot,
    k.sent.options =
      { o with method := method, headers := headers, tainted := t, originTainted := ot } := by
  have hfits {o : Options} {k : Hop} (h : Fits urls o k) : ∃ t,
      k.sent.options = { o with tainted := t } := ⟨_, h.options⟩
  induction h with
  | unsent _ => exact fun k hk => nomatch hk
  | @last _ o h _ fits _ =>
    intro k hk
    obtain rfl := mem_singleton.1 hk
    obtain ⟨t, ht⟩ := hfits fits
    exact ⟨o.method, o.headers, t, o.originTainted, ht⟩
  | @redirect _ o h r next rest _ fits _ _ _ _ ih =>
    intro k hk
    obtain ⟨t, ht⟩ := hfits fits
    rcases mem_cons.1 hk with rfl | hk
    · exact ⟨o.method, o.headers, t, o.originTainted, ht⟩
    · obtain ⟨m, hs, t', ot, hk⟩ := ih k hk
      refine ⟨m, hs, t', ot, hk.trans ?_⟩
      rw [redirectOptions, ht]

theorem Chain.origin_eq (h : Chain urls left o c outcome) (hk : k ∈ c) :
    k.sent.options.origin = o.origin := by
  obtain ⟨_, _, _, _, he⟩ := h.options k hk
  rw [he]

theorem Chain.corsRequest_eq (h : Chain urls left o c outcome) (hk : k ∈ c) :
    corsRequest k.sent.options = corsRequest o := by
  obtain ⟨_, _, _, _, he⟩ := h.options k hk
  rw [he]
  rfl

theorem Chain.fits_head (h : Chain urls left o (k :: c) outcome) : Fits urls o k := by
  cases h with
  | last fits _ | redirect fits _ _ _ _ => exact fits

theorem Chain.length_le (h : Chain urls left o c outcome) : c.length ≤ left + 1 := by
  induction h with
  | unsent _ => exact Nat.zero_le _
  | last _ _ => exact Nat.le_add_left _ _
  | redirect _ _ _ _ _ ih => exact Nat.succ_le_succ ih

theorem Chain.passed (h : Chain urls left o c outcome) {r : Response} {v : Line}
    (hx : outcome = .exposed r v) (hk : k ∈ c) : ∃ r, Passed k r := by
  induction h with
  | unsent hne => exact absurd hx (hne r v)
  | last _ passed => exact ⟨r, mem_singleton.1 hk ▸ passed r v hx⟩
  | @redirect _ _ _ r' _ _ _ _ passed _ _ _ ih =>
    rcases mem_cons.1 hk with rfl | hk
    exacts [⟨r', passed⟩, ih hx hk]

variable {after before : List Hop}

/-- From any of its hops on, a chain is one, and the taints have been passed on to there. -/
theorem Chain.from_hop (h : Chain urls left o (before ++ k :: after) outcome) :
    ∃ left' o', Chain urls left' o' (k :: after) outcome ∧ o'.origin = o.origin ∧
      corsRequest o' = corsRequest o ∧ (o.originTainted → o'.originTainted) ∧
      (corsRequest o → (o.tainted ∨ ∃ j ∈ before, urls.origin j.sent.url ≠ o.origin) →
        o'.tainted) := by
  induction before generalizing left o with
  | nil => exact ⟨left, o, h, rfl, rfl, id, fun _ h => h.resolve_right (by simp)⟩
  | cons j before ih =>
    generalize hc : before ++ k :: after = c at h
    rw [cons_append, hc] at h
    cases h with
    | last _ _ => simp at hc
    | @redirect left _ _ r next _ _ fits _ _ _ chain =>
      obtain ⟨left', o', hchain, horigin, hcors, hot, ht⟩ := ih (hc ▸ chain)
      rw [fits.origin_next] at horigin ht
      have hcors' : corsRequest (redirectOptions urls j.sent.url next r.status j.sent.options) =
          corsRequest o := by rw [corsRequest_redirectOptions, fits.options, corsRequest_taint]
      refine ⟨left', o', hchain, horigin, hcors.trans hcors', fun h => hot ?_, fun hreq h =>
        ht (hcors' ▸ hreq) ?_⟩
      · rw [redirectOptions, Bool.or_eq_true, fits.options]
        exact .inl h
      · rcases h with h | ⟨i, hi, hne⟩
        · exact .inl (fits.tainted hreq (.inl h))
        · rcases mem_cons.1 hi with rfl | hi
          · exact .inl (fits.tainted hreq (.inr hne))
          · exact .inr ⟨i, hi, hne⟩

theorem Chain.exists_fits (h : Chain urls left o c outcome) (hk : k ∈ c) :
    ∃ o', Fits urls o' k ∧ (o.originTainted → o'.originTainted) := by
  obtain ⟨before, after, rfl⟩ := append_of_mem hk
  obtain ⟨_, o', hchain, -, -, hot, -⟩ := h.from_hop
  exact ⟨o', hchain.fits_head, hot⟩

theorem Chain.tainted (h : Chain urls left o (before ++ k :: after) outcome) (hcors : corsRequest o)
    (ht : ∃ j ∈ before ++ [k], urls.origin j.sent.url ≠ o.origin) : k.sent.options.tainted := by
  obtain ⟨_, o', hchain, horigin, hcors', -, htaint⟩ := h.from_hop
  obtain ⟨j, hj, hne⟩ := ht
  refine hchain.fits_head.tainted (hcors' ▸ hcors) ?_
  rcases mem_append.1 hj with hj | hj
  · exact .inl (htaint hcors (.inr ⟨j, hj, hne⟩))
  · rw [← mem_singleton.1 hj, horigin]
    exact .inr hne

theorem Chain.originTainted {a b : Hop} (h : Chain urls left o (before ++ a :: b :: after) outcome)
    (hcors : corsRequest o) (ha : urls.origin a.sent.url ≠ o.origin)
    (hab : urls.origin b.sent.url ≠ urls.origin a.sent.url) (hk : k ∈ b :: after) :
    k.sent.options.originTainted := by
  obtain ⟨_, o', hchain, horigin, hcors', -⟩ := h.from_hop
  cases hchain with
  | @redirect _ _ _ r next _ _ fits _ _ head chain =>
    obtain ⟨o'', hfits, hot⟩ := chain.exists_fits hk
    have hb : b.sent.url = next := head b rfl
    have hreq := fits.corsRequest_next (hcors' ▸ hcors) next r.status
    have hsame : a.sent.options.origin = o.origin := by
      rw [← horigin, fits.options]
      rfl
    rw [hfits.options]
    refine hot ?_
    rw [corsRequest_redirectOptions] at hreq
    rw [redirectOptions, hreq, hsame, ← hb, bne_iff_ne.2 hab, bne_iff_ne.2 ha]
    exact Bool.or_true _

theorem Chain.foreign_or_originTainted (h : Chain urls left o c outcome) (hcors : corsRequest o)
    (ho : o.tainted → ∀ k ∈ c.head?, urls.origin k.sent.url = o.origin → o.originTainted)
    (hk : k ∈ c) (ht : k.sent.options.tainted) :
    urls.origin k.sent.url ≠ o.origin ∨ k.sent.options.originTainted := by
  have hfirst {o : Options} {k : Hop} (fits : Fits urls o k)
      (ho : o.tainted → urls.origin k.sent.url = o.origin → o.originTainted)
      (ht : k.sent.options.tainted) :
      urls.origin k.sent.url ≠ o.origin ∨ k.sent.options.originTainted := by
    by_cases hf : urls.origin k.sent.url = o.origin
    · right
      rw [fits.options, taint, Bool.or_eq_true, Bool.and_eq_true, bne_iff_ne] at ht
      rw [fits.options]
      exact ho (ht.resolve_right fun h => h.2 hf) hf
    · exact .inl hf
  induction h with
  | unsent _ => cases hk
  | last fits _ =>
    obtain rfl := mem_singleton.1 hk
    exact hfirst fits (fun hto => ho hto _ rfl) ht
  | @redirect _ o h r next rest _ fits _ _ head chain ih =>
    have hcors' := fits.corsRequest_next hcors next r.status
    have horigin : h.sent.options.origin = o.origin := by rw [fits.options]; rfl
    rcases mem_cons.1 hk with rfl | hk
    · exact hfirst fits (fun hto => ho hto _ rfl) ht
    have := ih hcors' (fun hto j hj hsame => ?_) hk
    · rwa [fits.origin_next] at this
    rw [redirectOptions, Bool.or_eq_true]
    rcases hfirst fits (fun hto => ho hto _ rfl) hto with hf | hot
    · right
      have hj : j.sent.url = next := head j hj
      have hsame : urls.origin j.sent.url = o.origin := hsame.trans horigin
      rw [corsRequest_redirectOptions] at hcors'
      rw [hcors', horigin, ← hj, hsame, Bool.and_eq_true]
      exact ⟨bne_iff_ne.2 (Ne.symm hf), bne_iff_ne.2 hf⟩
    · exact .inl hot

theorem Chain.authorization {a b : Hop} (h : Chain urls left o (before ++ a :: b :: after) outcome)
    (hab : urls.origin b.sent.url ≠ urls.origin a.sent.url) :
    b.sent.options.headers.values "Authorization" = [] := by
  obtain ⟨_, o', hchain, -⟩ := h.from_hop
  cases hchain with
  | @redirect _ _ _ r next _ _ _ _ _ head chain =>
    have hb : b.sent.url = next := head b rfl
    have hheaders : b.sent.options.headers =
        redirectHeaders urls a.sent.url next r.status a.sent.options := by
      rw [chain.fits_head.options]
      rfl
    rw [hheaders, redirectHeaders, if_pos (bne_iff_ne.2 (hb ▸ hab))]
    exact Headers.values_delete_self

end Along

end

section

open Bool Http List Text Headers

variable {urls : Urls} {w : World} {st : State} {o : Options} {q : Init} {u : Line}

/-- The headers that the page has set. -/
def authorHeaders (o : Options) : Headers :=
  o.headers.restrict fun n => !o.implicitHeaders.contains n

/-- The URL of a hop is not of the origin of the document. -/
def Foreign (urls : Urls) (q : Init) (k : Hop) : Prop :=
  urls.origin k.sent.url ≠ (q.options urls).origin

/-- The guarantees of a chain. -/
structure Guarded (urls : Urls) (q : Init) (hops : List Hop) (outcome : Outcome) : Prop where
  /-- A response that the page sees passed the check on every hop that is foreign or after one
      that is. -/
  checked : ∀ r v, outcome = .exposed r v → ∀ before k after, hops = before ++ k :: after →
    (∃ j ∈ before ++ [k], Foreign urls q j) →
    ∃ a r, k.sent.origin = some a ∧ k.sent.reply = some r ∧
      corsCheck r.headers a.1 ((q.options urls).credentials == .included)
  nulled : ∀ before a b after, hops = before ++ a :: b :: after → Foreign urls q a →
    urls.origin b.sent.url ≠ urls.origin a.sent.url →
    ∀ k ∈ b :: after, k.sent.origin = some nullOrigin
  dropped : ∀ before a b after, hops = before ++ a :: b :: after →
    urls.origin b.sent.url ≠ urls.origin a.sent.url →
    b.sent.options.headers.values "Authorization" = []
  /-- A `fetch` with a method or a header that is not safelisted was allowed by a preflight. -/
  preflighted : q.kind = .runtimeFetch → ∀ before k after, hops = before ++ k :: after →
    (∃ j ∈ before ++ [k], Foreign urls q j) →
    corsSafelistedMethod k.sent.options.method = false ∨
      unsafeRequestHeaderNames (authorHeaders k.sent.options) ≠ [] →
    k.sent.origin = some (corsOrigin k.sent.options) ∧
      Allowed k.past k.sent.now k.sent.url k.sent.options
        (unsafeRequestHeaderNames (authorHeaders k.sent.options))
  limited : hops.length ≤ 21

/-- The unsafe names of the page's headers are found by `corsUnsafeHeaderNames`, or a header
    named `*` makes every preflight a wildcard. -/
def Covered (o : Options) : Prop :=
  (∀ n ∈ unsafeRequestHeaderNames (authorHeaders o),
    n ∈ corsUnsafeHeaderNames o.headers o.implicitHeaders) ∨
  ("*".toList ∈ corsUnsafeHeaderNames o.headers o.implicitHeaders ∧ o.credentials ≠ .included)

/-! ## Headers along a chain -/

variable {h : Headers} {n : Text}

theorem mem_headerNames : n ∈ headerNames h ↔ n ∈ h.list.map (·.1) := by
  rw [headerNames, mem_insertionSort, mem_dedup]

variable {implicit : List Text}

theorem mem_corsUnsafeHeaderNames :
    n ∈ corsUnsafeHeaderNames h implicit ↔ n ∈ h.list.map (·.1) ∧ n ∉ implicit ∧
      corsSafeHeader n ((h.get n).getD []) = false := by
  rw [corsUnsafeHeaderNames, mem_filter, mem_headerNames, and_eq_true,
    not_eq_true', not_eq_true', ← not_eq_true, contains_iff_mem]

/-- The headers that a redirect can drop. -/
def droppedNames : List Text := "authorization" :: bodyHeaders

/-- `h'` is `h` without some of the names that a redirect can take away. -/
def Thinned (h h' : Headers) : Prop :=
  ∃ p : Text → Bool, h' = h.restrict p ∧ ∀ n ∉ droppedNames, p n

theorem Thinned.refl (h : Headers) : Thinned h h :=
  ⟨fun _ => true, restrict_true.symm, fun _ _ => rfl⟩

theorem Thinned.trans {h h' h'' : Headers} (hh' : Thinned h h') (hh'' : Thinned h' h'') :
    Thinned h h'' := by
  obtain ⟨p, rfl, hp⟩ := hh'
  obtain ⟨p', rfl, hp'⟩ := hh''
  exact ⟨fun n => p n && p' n, restrict_restrict, fun n hn => and_eq_true_iff.2 ⟨hp n hn, hp' n hn⟩⟩

theorem Thinned.delete (h : Headers) {name : Text} (hn : lower name ∈ droppedNames) :
    Thinned h (h.delete name) :=
  ⟨(· != lower name), delete_eq_restrict, fun _ hm => bne_iff_ne.2 fun he => hm (he ▸ hn)⟩

theorem Thinned.foldl_delete (h : Headers) {names : List Text}
    (hn : ∀ name ∈ names, lower name ∈ droppedNames) : Thinned h (names.foldl Headers.delete h) := by
  induction names generalizing h with
  | nil => exact .refl h
  | cons n names ih =>
    exact (Thinned.delete h (hn n (.head _))).trans
      (ih _ fun m hm => hn m (.tail _ hm))

theorem thinned_redirectHeaders (next : Line) (status : Nat) :
    Thinned o.headers (redirectHeaders urls u next status o) := by
  have hauthorization (h : Headers) : Thinned h (h.delete "Authorization") := .delete h (by decide)
  have hbody (h : Headers) : Thinned h (bodyHeaders.foldl delete h) := .foldl_delete h (by decide)
  rw [redirectHeaders]
  split_ifs
  exacts [(hbody _).trans (hauthorization _), hauthorization _, hbody _, .refl _]

theorem Chain.thinned {left : Nat} {c : List Hop} {outcome : Outcome} {k : Hop}
    (h : Chain urls left o c outcome) (hk : k ∈ c) : Thinned o.headers k.sent.options.headers := by
  have hfits {o : Options} {k : Hop} (h : Fits urls o k) : k.sent.options.headers = o.headers := by
    rw [h.options]
    rfl
  induction h with
  | unsent _ => cases hk
  | last fits _ =>
    rw [mem_singleton.1 hk, hfits fits]
    exact .refl _
  | @redirect _ o h r next rest _ fits _ _ _ _ ih =>
    rcases mem_cons.1 hk with rfl | hk
    · rw [hfits fits]
      exact .refl _
    · have := (thinned_redirectHeaders next r.status).trans (ih hk)
      rwa [hfits fits] at this

theorem mem_corsUnsafeHeaderNames_restrict
    {p : Text → Bool} (hlower : ∀ e ∈ h.list, lower e.1 = e.1) (hp : p n) :
    n ∈ corsUnsafeHeaderNames (h.restrict p) implicit ↔ n ∈ corsUnsafeHeaderNames h implicit := by
  have hmem : n ∈ (h.restrict p).list.map (·.1) ↔ n ∈ h.list.map (·.1) := by
    simp only [mem_map, restrict, mem_filter]
    constructor
    · rintro ⟨e, he, rfl⟩
      exact ⟨e, he.1, rfl⟩
    · rintro ⟨e, he, rfl⟩
      exact ⟨e, ⟨he, hp⟩, rfl⟩
  rw [mem_corsUnsafeHeaderNames, mem_corsUnsafeHeaderNames, hmem]
  refine and_congr_right fun hn => ?_
  obtain ⟨e, he, rfl⟩ := mem_map.1 hn
  rw [get_congr (values_restrict ((hlower e he).symm ▸ hp))]

variable {names names' : List Text}

theorem corsPreflightAllows_mono {entry : Entry} {method : Text} {credentials : Bool}
    (hnames : (∀ n ∈ names', n ∈ names) ∨ ("*".toList ∈ names ∧ credentials = false))
    (h : corsPreflightAllows entry method names credentials) :
    corsPreflightAllows entry method names' credentials := by
  rw [corsPreflightAllows, and_eq_true, all_eq_true] at h ⊢
  refine ⟨h.1, fun n hn => ?_⟩
  rcases hnames with hnames | ⟨hstar, rfl⟩
  · exact h.2 n (hnames n hn)
  · -- A preflight that allows the name `*` lists it, and is a wildcard.
    have hall : entry.headers.contains "*" := by
      exact (or_eq_true _ _ ▸ h.2 _ hstar : _ ∨ _).elim id id
    rw [or_eq_true]
    exact .inr hall

theorem Covered.thinned {o' : Options} (h : Covered o) (ht : Thinned o.headers o'.headers)
    (hlower : ∀ e ∈ o.headers.list, lower e.1 = e.1)
    (himplicit : o'.implicitHeaders = o.implicitHeaders) (hcred : o'.credentials = o.credentials) :
    Covered o' := by
  obtain ⟨p, hp, hkeep⟩ := ht
  rw [Covered, authorHeaders, hp, himplicit, hcred]
  refine h.imp (fun h n hn => ?_) (fun h => ⟨?_, h.2⟩)
  · rw [restrict_restrict] at hn
    have hn' : n ∈ unsafeRequestHeaderNames ((authorHeaders o).restrict p) := by
      rw [authorHeaders, restrict_restrict]
      simpa [Bool.and_comm] using hn
    obtain ⟨hn, hpn⟩ := mem_unsafeRequestHeaderNames_restrict hn'
    exact (mem_corsUnsafeHeaderNames_restrict hlower hpn).2 (h n hn)
  · exact (mem_corsUnsafeHeaderNames_restrict hlower (hkeep _ (by decide))).2 h.1

/-! ## Covered requests -/

theorem sentOrigin_of_tainted (hcors : corsRequest o)
    (h : urls.origin u ≠ o.origin ∨ o.originTainted) : sentOrigin urls u o = some (corsOrigin o) := by
  have hmode : corsMode o := (and_eq_true _ _ ▸ hcors : _ ∧ _).1
  rw [sentOrigin, hmode, Bool.true_and, if_pos]
  rw [or_eq_true, or_eq_true, or_eq_true]
  rcases h with h | h
  exacts [.inr (.inr (bne_iff_ne.2 h)), .inr (.inl (.inl h))]

theorem Chain.guarded {c : List Hop} {outcome : Outcome} (h : Chain urls 20 (q.options urls) c outcome)
    (hcors : corsRequest (q.options urls))
    (hcov : q.kind = .runtimeFetch → (∃ k ∈ c, Foreign urls q k) → Covered (q.options urls)) :
    Guarded urls q c outcome := by
  have hsent {before after : List Hop} {k : Hop} (hc : c = before ++ k :: after)
      (hf : ∃ j ∈ before ++ [k], Foreign urls q j) :
      k.sent.options.tainted ∧ k.sent.origin = some (corsOrigin k.sent.options) := by
    have hk : k ∈ c := hc ▸ mem_append_right _ (.head _)
    have ht := (hc ▸ h).tainted hcors hf
    obtain ⟨o', hfits, -⟩ := h.exists_fits hk
    refine ⟨ht, hfits.origin.trans (sentOrigin_of_tainted ((h.corsRequest_eq hk).trans hcors) ?_)⟩
    rw [h.origin_eq hk]
    exact h.foreign_or_originTainted hcors nofun hk ht
  refine ⟨fun r v hx before k after hc hf => ?_, fun before a b after hc ha hab k hk => ?_,
    fun before a b after hc hab => (hc ▸ h).authorization hab,
    fun hkind before k after hc hf hneed => ?_, h.length_le⟩
  · have hk : k ∈ c := hc ▸ mem_append_right _ (.head _)
    obtain ⟨ht, ha⟩ := hsent hc hf
    obtain ⟨r, hr, hpass⟩ := h.passed hx hk
    refine ⟨_, r, ha, hr, ?_⟩
    obtain ⟨_, _, _, _, ho⟩ := h.options k hk
    have hcred : k.sent.options.credentials = (q.options urls).credentials := by rw [ho]
    rw [refused, (h.corsRequest_eq hk).trans hcors, ht, Bool.true_and, Bool.true_and,
      not_eq_false'] at hpass
    rwa [← hcred]
  · have hk' : k ∈ c := hc ▸ mem_append_right _ (.tail _ hk)
    have hot := (hc ▸ h).originTainted hcors ha hab hk
    obtain ⟨o', hfits, -⟩ := h.exists_fits hk'
    rw [hfits.origin, sentOrigin_of_tainted ((h.corsRequest_eq hk').trans hcors) (.inr hot),
      corsOrigin, if_pos hot]
  · have hk : k ∈ c := hc ▸ mem_append_right _ (.head _)
    obtain ⟨ht, ha⟩ := hsent hc hf
    obtain ⟨_, _, _, _, ho⟩ := h.options k hk
    have hkk : k.sent.options.kind = .runtimeFetch := by rw [ho]; exact hkind
    have hfc : ∃ j ∈ c, Foreign urls q j := by
      obtain ⟨j, hj, hf⟩ := hf
      refine ⟨j, hc ▸ ?_, hf⟩
      rw [append_cons]
      exact mem_append_left _ hj
    have hcovk : Covered k.sent.options := (hcov hkind hfc).thinned (h.thinned hk)
      (fun e he => (q.headers_token e he).2) (by rw [ho]) (by rw [ho])
    obtain ⟨o', hfits, -⟩ := h.exists_fits hk
    refine ⟨ha, ?_⟩
    have hne : k.sent.options.kind ≠ .elementCors := by rw [hkk]; decide
    have hmust : corsSafelistedMethod k.sent.options.method = false ∨
        corsUnsafeHeaderNames k.sent.options.headers k.sent.options.implicitHeaders ≠ [] := by
      refine hneed.imp_right fun hne => ?_
      rcases hcovk with hsub | ⟨hstar, _⟩
      · obtain ⟨n, hn⟩ := exists_mem_of_ne_nil _ hne
        exact ne_nil_of_mem (hsub n hn)
      · exact ne_nil_of_mem hstar
    obtain ⟨g, hg, htab, horigin, hurl, hc, hallow, hfresh⟩ := hfits.allowed ⟨ht, hne, hmust⟩
    refine ⟨g, hg, htab, horigin, hurl, hc, corsPreflightAllows_mono ?_ hallow, hfresh⟩
    refine hcovk.imp_right fun ⟨hstar, hcred⟩ => ⟨hstar, ?_⟩
    rw [hc]
    exact beq_false_of_ne hcred

/-! ## The unsafe names -/

theorem ne_semicolon {c : Char} (h : isHttpWhitespace c) : c != ';' := by
  rw [bne_iff_ne]
  rintro rfl
  cases h

end

end ZeroProxy.Worker.Fetch
