import ZeroProxy.Worker.CookieJar
import ZeroProxy.Kernel.Response

/-!
# Cookies that are written

`document.cookie` and `cookieStore` of a page send their lines to the worker, which applies them to
the jar like a server's `Set-Cookie` lines (`applyCookieWrite` of `sw.js`). The lines of a server
come from the kernel in one header.
-/

namespace ZeroProxy.Worker

open Text Keyed

/-- The jar of a tab, and the identifiers of the writes applied last, the oldest first. -/
structure CookieTab where
  jar : CookieJar
  cookieWriteIds : List Text

/-- A line that a page writes, when it reaches the worker. -/
structure CookieWrite where
  now : Int
  targetUrl : Text
  line : Text
  wid : Text

def maxCookieWriteIds : Nat := 256

/-- The set of identifiers with one more. -/
def rememberWrite (seen : List Text) (wid : Text) : List Text :=
  let seen := seen ++ [wid]
  if maxCookieWriteIds < seen.length then seen.tail else seen

/-- The worker has nothing to do: the line is empty or was applied before. -/
def CookieTab.ignores (tab : CookieTab) (w : CookieWrite) : Bool :=
  w.line.isEmpty || (!w.wid.isEmpty && tab.cookieWriteIds.contains w.wid)

/-- `applyCookieWrite`. -/
def applyCookieWrite (env : CookieEnv) (tab : CookieTab) (w : CookieWrite) : CookieTab :=
  if tab.ignores w then tab
  else
    let wid := if w.wid.isEmpty then none else some w.wid
    { jar := (setCookieLine env tab.jar w.now w.targetUrl w.line ⟨false, wid⟩).1
      cookieWriteIds := if w.wid.isEmpty then tab.cookieWriteIds
        else rememberWrite tab.cookieWriteIds w.wid }

def applyCookieWrites (env : CookieEnv) (tab : CookieTab) (ws : List CookieWrite) : CookieTab :=
  ws.foldl (applyCookieWrite env) tab

/-! ## `HttpOnly` cookies -/

/-- The record is an `HttpOnly` cookie, and alive. -/
def secret (now : Int) (r : Cookie) : Bool := r.httpOnly && !expired r now

/-- The `HttpOnly` cookies of a tab. -/
def CookieTab.secrets (tab : CookieTab) (now : Int) : List Cookie :=
  tab.jar.records.filter (secret now)

/-- A write creates, replaces, changes and deletes no `HttpOnly` cookie. -/
def Spares (env : CookieEnv) (tab : CookieTab) (w : CookieWrite) : Prop :=
  (applyCookieWrite env tab w).secrets w.now = tab.secrets w.now

/-- The record of a write has nothing to do with `HttpOnly` cookies: one that deletes meets
    none under its key; one that sets is none itself and meets none, or is the very cookie that
    it meets. -/
def Harmless (env : CookieEnv) (tab : CookieTab) (w : CookieWrite) : Prop :=
  tab.ignores w ∨ ∀ r, parse env w.now w.line w.targetUrl = some r →
    if r.deletes then
      ∀ old, lookup Cookie.key r.key tab.jar.records = some old → secret w.now old = false
    else
      match lookup Cookie.key r.key tab.jar.records with
      | none => secret w.now (r.bounded w.now) = false
      | some old => secret w.now old ∨ secret w.now ((r.bounded w.now).replacing old) →
        (r.bounded w.now).replacing old = old

variable {env : CookieEnv} {tab : CookieTab} {w : CookieWrite}

theorem accepted_page (now : Int) (url line : Text) :
    accepted env now url line false = parse env now line url := by
  rw [accepted]
  cases parse env now line url <;> rfl

theorem records_applyCookieWrite : (applyCookieWrite env tab w).jar.records =
      if tab.ignores w then tab.jar.records
      else match parse env w.now w.line w.targetUrl with
        | none => tab.jar.records
        | some r => if r.deletes then erase Cookie.key r.key tab.jar.records
          else put Cookie.key (r.bounded w.now).replacing (r.bounded w.now)
            tab.jar.records := by
  rw [applyCookieWrite]
  split
  · rfl
  · rewrite [records_setCookieLine, accepted_page]
    cases parse env w.now w.line w.targetUrl <;> rfl

theorem spares_iff_harmless : Spares env tab w ↔ Harmless env tab w := by
  rw [Spares, CookieTab.secrets, records_applyCookieWrite, CookieTab.secrets, Harmless]
  by_cases hign : tab.ignores w
  · rw [if_pos hign]
    exact ⟨fun _ => .inl hign, fun _ => rfl⟩
  rw [if_neg hign, or_iff_right hign]
  cases hparse : parse env w.now w.line w.targetUrl with
  | none => exact ⟨fun _ r hr => absurd hr (Option.some_ne_none r).symm, fun _ => rfl⟩
  | some r =>
    have hone {P : Cookie → Prop} : (∀ z, some r = some z → P z) ↔ P r :=
      ⟨fun h => h r rfl, fun h z hz => Option.some.inj hz ▸ h⟩
    rw [hone]
    dsimp only
    split
    · exact filter_erase_eq_iff
    · rw [filter_put_eq_iff, key_bounded]
      cases lookup Cookie.key r.key tab.jar.records <;> rfl

/-- For every jar and every sequence of writes of a page: no write touches an `HttpOnly` cookie
    if and only if each write is harmless in the jar that it finds. -/
theorem spared_iff (env : CookieEnv) (tab : CookieTab) (writes : List CookieWrite) :
    (∀ before w after, writes = before ++ w :: after →
      Spares env (applyCookieWrites env tab before) w) ↔
        ∀ before w after, writes = before ++ w :: after →
          Harmless env (applyCookieWrites env tab before) w :=
  forall_congr' fun _ => forall_congr' fun _ => forall_congr' fun _ =>
    imp_congr_right fun _ => spares_iff_harmless

/-- The page deletes the session cookie of the server. -/
theorem page_deletes_httpOnly :
    ∃ tab w, tab.jar = (setCookieLine oneHost .empty 0 [] "sid=1; HttpOnly" ⟨false, none⟩).1 ∧
      tab.secrets 1 ≠ [] ∧ (applyCookieWrite oneHost tab w).secrets 1 = [] :=
  ⟨⟨_, []⟩, ⟨1, [], "sid=; Max-Age=0", []⟩, rfl, by decide, by decide⟩

/-! ## Lifetimes

`expired` counts from the creation time of a record, and a record that replaces another has the
creation time of the other one. -/

open List Cookie

variable {env : CookieEnv} {jar : CookieJar} {r : Cookie}

/-- The operation sets or deletes the cookie with a key. -/
def Touches (env : CookieEnv) (k : Text × Text × Text) : Int × JarOp → Prop
  | (now, .set url line m) => ∃ r, accepted env now url line m.crossSite = some r ∧ r.key = k
  | _ => False

theorem mem_jarStep (hl : Keyed.Distinct key jar.records) {now : Int} {op : JarOp}
    (hr : r ∈ jar.records) (halive : expired r now = false) (htouch : ¬ Touches env r.key (now, op)) :
    r ∈ (jarStep env jar now op).1.records := by
  cases op with
  | set url line m =>
    rw [jarStep, records_setCookieLine]
    cases hacc : accepted env now url line m.crossSite with
    | none => exact hr
    | some z =>
      have hne : r.key ≠ z.key := fun hkey => htouch ⟨z, hacc, hkey.symm⟩
      dsimp only
      split
      · exact (mem_erase hl).2 ⟨hr, hne⟩
      · exact (mem_put hl).2 (.inr ⟨hr, by rwa [key_bounded]⟩)
  | merge restored =>
    exact merge_induction (motive := fun l => r ∈ l) hr fun _ _ _ _ h => mem_add.2 (.inl h)
  | read url reader =>
    rw [jarStep, records_cookiesForURL]
    split
    · exact mem_filter.2 ⟨hr, by rw [halive]; rfl⟩
    · exact hr
  | snapshot => exact hr

theorem mem_runJar (hl : Keyed.Distinct key jar.records) (hr : r ∈ jar.records)
    {ops : List (Int × JarOp)} (h : ∀ o ∈ ops, expired r o.1 = false ∧ ¬ Touches env r.key o) :
    r ∈ (runJar env jar ops).1.records := by
  induction ops generalizing jar with
  | nil => exact hr
  | cons o ops ih =>
    obtain ⟨halive, htouch⟩ := h o (.head _)
    exact ih (distinct_jarStep o.2 hl) (mem_jarStep hl hr halive htouch)
      fun o' ho' => h o' (.tail _ ho')

/-! ## A positive `Max-Age` -/

/-- Some reader of some URL may see the record. -/
def Readable (env : CookieEnv) (r : Cookie) : Prop :=
  ∃ url u reader, env.parseUrl url = some u ∧ admits u reader r

/-- The cookie `r`, set at time `t`, is in the result of every read that admits it and is made
    at most `n` seconds later, after operations that do not set its key. -/
def Lasts (env : CookieEnv) (jar : CookieJar) (t n : Int) (r : Cookie) : Prop :=
  ∀ ops now, Timed t ops → (∀ o ∈ ops, o.1 ≤ now ∧ ¬ Touches env r.key o) → t ≤ now →
    now ≤ t + n * 1000 → ∀ url u reader, env.parseUrl url = some u → admits u reader r →
      ∃ c ∈ (cookiesForURL env (runJar env jar ops).1 now url reader).2,
        c.key = r.key ∧ c.value = r.value

theorem expired_iff {n : Int} (hn : r.maxAge = some n) (hpos : 0 < n) (now : Int) :
    expired r now ↔ r.creation + n * 1000 < now := by
  rw [expired, hn]
  dsimp only
  rw [if_neg (not_le.2 hpos), decide_eq_true_iff]

theorem records_of_maxAge {t n : Int} {url line : Text} {m : LineMeta}
    (hacc : accepted env t url line m.crossSite = some r) (hn : r.maxAge = some n) (hpos : 0 < n) :
    (setCookieLine env jar t url line m).1.records = put key r.replacing r jar.records := by
  have hdel : r.deletes = false := by
    rw [deletes, hn]
    exact decide_eq_false (not_le.2 hpos)
  have hbounded : r.bounded t = r := by
    rw [bounded, hn]
    rfl
  rw [records_setCookieLine, hacc]
  dsimp only
  rw [hdel, hbounded]
  rfl

/-- After any history of the jar, a cookie that is accepted with a positive `Max-Age` is read
    until that has passed, if and only if it replaces no cookie that was created before it, or
    nobody may read it. -/
theorem lasts_iff (env : CookieEnv) (history : List (Int × JarOp)) (t n : Int) (url line : Text)
    (m : LineMeta) (r : Cookie) (hacc : accepted env t url line m.crossSite = some r)
    (hn : r.maxAge = some n) (hpos : 0 < n) :
    Lasts env (setCookieLine env (runJar env .empty history).1 t url line m).1 t n r ↔
      (∀ old ∈ (runJar env .empty history).1.records, old.key = r.key → t ≤ old.creation) ∨
        ¬ Readable env r := by
  have hl := @distinct_runJar env history
  generalize (runJar env .empty history).1 = jar at hl ⊢
  have hrecords := @records_of_maxAge env jar r t n url line m hacc hn hpos
  have hset := @distinct_setCookieLine env jar t url line m hl
  constructor
  · rintro hlasts
    rw [or_iff_not_imp_right, not_not]
    rintro ⟨url', u', reader, hu, hadm⟩ old hold hkey
    by_contra hlt
    -- The last moment of the interval is past the expiry that counts from `old.creation`.
    obtain ⟨c, hc, hckey, -⟩ := hlasts [] (t + n * 1000) (pairwise_singleton _ _)
      (fun _ ho => absurd ho not_mem_nil) (by omega) le_rfl url' u' reader hu hadm
    obtain ⟨hc, halive, -⟩ := (mem_cookiesForURL hu).1 hc
    rw [runJar, hrecords, mem_put hl, ← hkey, lookup_of_mem hl hold] at hc
    rcases hc with rfl | ⟨-, hne⟩
    · have hexp : expired (r.replacing old) (t + n * 1000) :=
        (expired_iff (r := r.replacing old) hn hpos _).2 (Int.add_lt_add_right (not_le.1 hlt) _)
      exact Bool.false_ne_true (halive.symm.trans hexp)
    · exact hne (hckey.trans hkey.symm)
  · rintro hcond ops now htimed hops htnow hnow url' u' reader hu hadm
    have hold := hcond.resolve_right fun h => h ⟨url', u', reader, hu, hadm⟩
    -- What is stored differs from `r` in the creation time only, which is not before `t`.
    obtain ⟨s, hs, hmem⟩ : ∃ s, t ≤ s ∧
        { r with creation := s } ∈ (setCookieLine env jar t url line m).1.records := by
      rw [hrecords]
      cases hlook : lookup key r.key jar.records with
      | none =>
        exact ⟨r.creation, (accepted_spec hacc).2.ge, (mem_put hl).2 (.inl (by rw [hlook]; rfl))⟩
      | some old =>
        exact ⟨old.creation, hold old (mem_of_lookup hlook) (key_of_lookup hlook),
          (mem_put hl).2 (.inl (by rw [hlook]; rfl))⟩
    have halive (now' : Int) (h : now' ≤ now) : expired { r with creation := s } now' = false := by
      rw [← Bool.not_eq_true, expired_iff (r := { r with creation := s }) hn hpos]
      dsimp only
      omega
    refine ⟨_, (mem_cookiesForURL hu).2 ⟨mem_runJar hset hmem fun o ho => ?_, halive now le_rfl, hadm⟩,
      rfl, rfl⟩
    exact ⟨halive o.1 (hops o ho).1, (hops o ho).2⟩

/-- A cookie of one hour, in a jar that had none of its name. -/
theorem lasts_of_fresh : ∃ r, accepted oneHost 0 [] "a=1; Max-Age=3600" false = some r ∧
      Lasts oneHost (setCookieLine oneHost (runJar oneHost .empty []).1 0 []
        "a=1; Max-Age=3600" ⟨false, none⟩).1 0 3600 r := by
  refine ⟨_, rfl, (lasts_iff oneHost [] 0 3600 [] _ ⟨false, none⟩ _ rfl (by decide) (by decide)).2 ?_⟩
  exact .inl fun _ h => nomatch h

/-- A cookie of ten seconds that replaces one set nine seconds before is gone after two. -/
theorem replaced_cookie_does_not_last :
    ∃ r, accepted oneHost 9000 [] "a=2; Max-Age=10" false = some r ∧
      ¬ Lasts oneHost (setCookieLine oneHost
        (runJar oneHost .empty [(0, .set [] "a=1; Max-Age=10" ⟨false, none⟩)]).1 9000 []
        "a=2; Max-Age=10" ⟨false, none⟩).1 9000 10 r := by
  refine ⟨_, rfl, fun h => ?_⟩
  obtain ⟨c, hc, -⟩ := h [] 11000 (pairwise_singleton _ _)
    (fun _ ho => absurd ho not_mem_nil) (by decide) (by decide) [] _ ⟨false, false⟩ rfl
    (by decide)
  have hnone : (cookiesForURL oneHost (setCookieLine oneHost
      (runJar oneHost .empty [(0, .set [] "a=1; Max-Age=10" ⟨false, none⟩)]).1 9000 []
      "a=2; Max-Age=10" ⟨false, none⟩).1 11000 [] ⟨false, false⟩).2 = [] := by decide
  exact not_mem_nil (hnone ▸ hc)

/-! ## The cookies of a response

How the `Set-Cookie` headers of a server reach the jar. A `Response` cannot carry them, so the
kernel joins their values with tabs and adds the header `X-ZP-Set-Cookie`; the worker splits
its combined value at tabs and applies every line (`transportFetchHop` of `sw.js`). -/

open Cookie Http Kernel List Headers

def setCookieLines (env : CookieEnv) (now : Int) (url : Text) (crossSite : Bool)
    (lines : List Text) (jar : CookieJar) : CookieJar :=
  lines.foldl (fun jar line => (setCookieLine env jar now url line ⟨crossSite, none⟩).1) jar

def sidechannelHeader : Text := "X-ZP-Set-Cookie"

/-- The parts of the combined value that are not empty. -/
def splitSidechannel (value : Option Text) : List Text :=
  match value with
  | none => []
  | some v => (split (· == '\t') v).filter (!·.isEmpty)

/-- The cookies of a response are stored, when credentials are allowed. -/
def storeResponseCookies (env : CookieEnv) (now : Int) (url : Text) (crossSite : Bool)
    (credentialsAllowed : Bool) (headers : Headers) (jar : CookieJar) : CookieJar :=
  if credentialsAllowed then
    setCookieLines env now url crossSite (splitSidechannel (headers.get sidechannelHeader))
      (setCookieLines env now url crossSite (headers.values "set-cookie") jar)
  else jar

/-- The values of the server's `Set-Cookie` headers. -/
def setCookieValues (up : Upstream) : List Text := (named up.headers "set-cookie").map (·.2)

/-- What the server's headers make of the combined value: its own headers of that name come
    first, then the joined values, unless they are refused. -/
def sidechannelValues (up : Upstream) : List Text :=
  (acceptedHeaders up.headers).values sidechannelHeader ++
    if (setCookieValues up).isEmpty then []
    else (added sidechannelHeader
      (sidechannelHeader, "\t".toList.intercalate (setCookieValues up))).toList

def linesOfUpstream (up : Upstream) : List Text :=
  splitSidechannel (match sidechannelValues up with
    | [] => none
    | v :: vs => some (", ".toList.intercalate (v :: vs)))

/-! ## From the server to the worker -/

theorem named_filter (headers : List (Text × Text)) :
    (headers.filter fun e => !isStreamMarker e.1 && eqCI e.1 "set-cookie") =
      named headers "set-cookie" := by
  refine filter_congr fun e _ => ?_
  by_cases he : eqCI e.1 "set-cookie"
  · have hmark : isStreamMarker e.1 = false := by
      have hci {n : Text} (hn : lower "set-cookie" ≠ lower n) : eqCI e.1 n = false :=
        beq_false_of_ne fun h => hn ((beq_iff_eq.1 he).symm.trans h)
      rw [isStreamMarker, hci (by decide), hci (by decide)]
      rfl
    rw [hmark, he]
    rfl
  · rw [Bool.eq_false_iff.2 he, Bool.and_false]

theorem values_sidechannel_buildResponseHeaders (deps : Kernel.Deps) (headers : List (Text × Text))
    (finalUrl : Text) (armed : Bool) :
    (buildResponseHeaders deps headers finalUrl armed).values sidechannelHeader =
      (acceptedHeaders headers).values sidechannelHeader ++
        if ((named headers "set-cookie").map (·.2)).isEmpty then []
        else (added sidechannelHeader (sidechannelHeader,
          "\t".toList.intercalate ((named headers "set-cookie").map (·.2)))).toList := by
  have hmark (h : Headers) (b : Bool) :
      (if b then h.append "X-ZP-Challenge-Compat" "1" else h).values
        sidechannelHeader = h.values sidechannelHeader := by
    cases b
    · rfl
    · have hne : lower sidechannelHeader ≠ lower "X-ZP-Challenge-Compat" := by decide
      rw [if_pos rfl, values_append_of_ne hne]
  have hcookie (h : Headers) (setCookies : List Text) :
      (if setCookies.isEmpty then h
        else h.append sidechannelHeader ("\t".toList.intercalate setCookies)).values
          sidechannelHeader = h.values sidechannelHeader ++ if setCookies.isEmpty then []
            else (added sidechannelHeader
              (sidechannelHeader, "\t".toList.intercalate setCookies)).toList := by
    cases setCookies with
    | nil => exact (append_nil _).symm
    | cons v vs => exact values_append _
  rw [← named_filter]
  exact (hmark _ _).trans (hcookie _ _)

variable {up : Upstream}

theorem lines_of_kernelResponse {deps : Kernel.Deps} {u : Text} {armed : Bool}
    {r : Response} (hr : kernelResponse deps u armed up = some r) :
    splitSidechannel (r.headers.get sidechannelHeader) = linesOfUpstream up := by
  obtain ⟨hs, hnamed, hvalues⟩ := exists_buildResponseHeaders hr
  have hside : r.headers.values sidechannelHeader = sidechannelValues up := by
    rw [hvalues _ (by decide), values_sidechannel_buildResponseHeaders,
      values_acceptedHeaders_congr (hnamed sidechannelHeader (by decide)),
      hnamed "set-cookie" (by decide)]
    rfl
  rw [Headers.get, hside]
  rfl

theorem values_setCookie_kernelResponse {deps : Kernel.Deps} {u : Text} {armed : Bool}
    {r : Response} (hr : kernelResponse deps u armed up = some r) :
    r.headers.values "set-cookie" = [] := by
  have hmem : "set-cookie".toList ∈ forbiddenResponseHeaders := by decide
  obtain ⟨f, -, hr⟩ := Option.bind_eq_some_iff.1 hr
  cases f with
  | buffered | streaming => exact values_newResponse_of_forbidden hr hmem

/-! ## Lines as edits -/

/-- What an accepted record does to the records of the jar. -/
def editOfCookie (now : Int) (r : Cookie) : Keyed.Edit Cookie (Text × Text × Text) :=
  if r.deletes then .erase r.key else .put (r.bounded now)

/-- What a line does to the records of the jar, when it does anything. -/
def editOfLine (env : CookieEnv) (now : Int) (url : Text) (crossSite : Bool) (line : Text) :
    Option (Keyed.Edit Cookie (Text × Text × Text)) :=
  (accepted env now url line crossSite).map (editOfCookie now)

def editsOfLines (env : CookieEnv) (now : Int) (url : Text) (crossSite : Bool)
    (lines : List Text) : List (Keyed.Edit Cookie (Text × Text × Text)) :=
  lines.filterMap (editOfLine env now url crossSite)

variable {env : CookieEnv} {now : Int} {url : Text} {crossSite : Bool}

theorem records_setCookieLines (lines : List Text) (jar : CookieJar) :
    (setCookieLines env now url crossSite lines jar).records =
      runEdits key replacing (editsOfLines env now url crossSite lines)
        jar.records := by
  induction lines generalizing jar with
  | nil => rfl
  | cons line lines ih =>
    rw [setCookieLines, foldl_cons, ← setCookieLines, ih, records_setCookieLine, editsOfLines,
      editsOfLines, filterMap_cons, editOfLine]
    cases accepted env now url line crossSite with
    | none => rfl
    | some r =>
      rw [Option.map_some, editOfCookie]
      dsimp only
      split <;> rfl

theorem lawful_replacing : Keyed.Lawful key replacing where
  key_update _ _ := rfl
  update_update _ _ _ := rfl

theorem creation_of_put_mem {lines : List Text} {r : Cookie}
    (h : .put r ∈ editsOfLines env now url crossSite lines) : r.creation = now := by
  obtain ⟨line, -, hline⟩ := mem_filterMap.1 h
  obtain ⟨r', hacc, hedit⟩ := Option.map_eq_some_iff.1 hline
  rw [editOfCookie] at hedit
  split at hedit
  · cases hedit
  · obtain rfl := Keyed.Edit.put.inj hedit
    rw [bounded]
    split <;> exact (accepted_spec hacc).2

theorem fresh_editsOfLines (lines : List Text) :
    Keyed.Fresh replacing (editsOfLines env now url crossSite lines) := by
  intro x z hx hz
  rw [replacing, creation_of_put_mem hz, ← creation_of_put_mem hx]

/-- A record that was created before. -/
def earlierCookie (now : Int) (k : Text × Text × Text) : Cookie where
  name := k.1
  value := []
  domain := k.2.1
  hostOnly := false
  path := k.2.2
  secure := false
  httpOnly := false
  sameSite := []
  expires := none
  maxAge := none
  creation := now - 1
  session := false

/-- Lines have the same net effect: they delete the same cookies at some point, and leave the
    same cookies in the same order. -/
def SameNet (env : CookieEnv) (now : Int) (url : Text) (crossSite : Bool)
    (lines lines' : List Text) : Prop :=
  dropped (editsOfLines env now url crossSite lines) =
      dropped (editsOfLines env now url crossSite lines') ∧
    kept key (editsOfLines env now url crossSite lines) =
      kept key (editsOfLines env now url crossSite lines')

theorem setCookieLines_eq_iff (lines lines' : List Text) :
    (∀ jar : CookieJar, Keyed.Distinct key jar.records →
      (setCookieLines env now url crossSite lines jar).records =
        (setCookieLines env now url crossSite lines' jar).records) ↔
      SameNet env now url crossSite lines lines' := by
  have hprobe (k : Text × Text × Text) : ∃ y : Cookie, y.key = k ∧
      ∀ x, .put x ∈ editsOfLines env now url crossSite lines → x.replacing y ≠ x := by
    refine ⟨earlierCookie now k, rfl, fun x hx h => ?_⟩
    have hcreation : now - 1 = x.creation := congrArg creation h
    rw [creation_of_put_mem hx] at hcreation
    omega
  rw [SameNet, ← runEdits_eq_iff lawful_replacing (fresh_editsOfLines lines)
    (fresh_editsOfLines lines') hprobe]
  constructor
  · intro h l hl
    have := h ⟨l, false⟩ hl
    rwa [records_setCookieLines, records_setCookieLines] at this
  · intro h jar hjar
    rw [records_setCookieLines, records_setCookieLines, h _ hjar]

/-- For every response of the kernel: its cookies leave every jar as the values of its
    `Set-Cookie` headers would, applied once each and in order, if and only if the lines that
    the worker gets have the same net effect as the values. -/
theorem stored_iff (deps : Kernel.Deps) (env : CookieEnv) (now : Int) (u : Text)
    (armed crossSite : Bool) (up : Upstream) (r : Response)
    (hr : kernelResponse deps u armed up = some r) :
    (∀ jar : CookieJar, Keyed.Distinct key jar.records →
      (storeResponseCookies env now u crossSite true r.headers jar).records =
        (setCookieLines env now u crossSite (setCookieValues up) jar).records) ↔
      SameNet env now u crossSite (linesOfUpstream up) (setCookieValues up) := by
  have hstore (jar : CookieJar) : storeResponseCookies env now u crossSite true r.headers jar =
      setCookieLines env now u crossSite (linesOfUpstream up) jar := by
    rw [storeResponseCookies, lines_of_kernelResponse hr, values_setCookie_kernelResponse hr]
    rfl
  simp only [hstore]
  exact setCookieLines_eq_iff _ _

/-! ## Values that arrive unchanged -/

/-- A nonempty value of header characters without tabs and without white space around it. -/
def PlainValue (v : Text) : Prop :=
  '\t' ∉ v ∧ isHeaderValue v ∧ v.head?.any isHttpWhitespace = false ∧
    v.getLast?.any isHttpWhitespace = false ∧ v ≠ []

theorem isHeaderValue_intercalate {vs : List Text} (h : ∀ v ∈ vs, isHeaderValue v) :
    isHeaderValue ("\t".toList.intercalate vs) := by
  rw [isHeaderValue, all_eq_true]
  intro c hc
  rcases mem_intercalate hc with hc | ⟨v, hv, hc⟩
  · rw [mem_singleton.1 hc]
    decide
  · exact all_eq_true.1 (h v hv) c hc

theorem splitSidechannel_of_plain {vs : List Text} (hne : vs ≠ []) (h : ∀ v ∈ vs, PlainValue v) :
    added sidechannelHeader (sidechannelHeader, "\t".toList.intercalate vs) =
        some ("\t".toList.intercalate vs) ∧
      splitSidechannel (some ("\t".toList.intercalate vs)) = vs := by
  constructor
  · obtain ⟨v, ws, rfl⟩ := exists_cons_of_ne_nil hne
    have hnorm : normalize ("\t".toList.intercalate (v :: ws)) = "\t".toList.intercalate (v :: ws) := by
      refine stripBoth_eq_self ?_ ?_
      · obtain ⟨-, -, hhead, -, hv⟩ := h v (.head _)
        rwa [head?_intercalate hv]
      · obtain ⟨-, -, -, hlast, -⟩ := h _ (getLast_mem hne)
        rwa [getLast?_intercalate hne fun w hw => (h w hw).2.2.2.2]
    rw [added, hnorm, isHeaderValue_intercalate fun w hw => (h w hw).2.1,
      show isToken sidechannelHeader from by decide]
    simp
  · have hsplit : split (· == '\t') ("\t".toList.intercalate vs) = vs :=
      splitOn_intercalate '\t' (fun v hv => (h v hv).1) hne
    rw [splitSidechannel, hsplit, filter_eq_self]
    intro v hv
    simpa using (h v hv).2.2.2.2

theorem sameNet_of_plain (hside : (acceptedHeaders up.headers).values sidechannelHeader = [])
    (hplain : ∀ v ∈ setCookieValues up, PlainValue v) :
    SameNet env now url crossSite (linesOfUpstream up) (setCookieValues up) := by
  have hlines : linesOfUpstream up = setCookieValues up := by
    rw [linesOfUpstream, sidechannelValues, hside]
    by_cases hne : setCookieValues up = []
    · rw [hne]
      rfl
    · obtain ⟨hadded, hsplit⟩ := splitSidechannel_of_plain hne hplain
      rw [if_neg (by simpa using hne), hadded]
      exact (congrArg (fun v => splitSidechannel (some v)) intercalate_singleton).trans hsplit
  rw [hlines]
  exact ⟨rfl, rfl⟩

/-- A page with one `Set-Cookie` header. -/
def cookieAnswer (value : Text) : Upstream where
  status := 200
  reason := "OK"
  headers := [("Set-Cookie", value)]
  body := ⟨[], false⟩
  isHead := false

def plainDeps : Kernel.Deps := ⟨fun _ b => some b, fun _ s => some s, fun _ _ => false⟩

/-- An ordinary cookie is stored. -/
theorem plain_cookie_stored :
    ∃ r, kernelResponse plainDeps [] false (cookieAnswer "a=1; HttpOnly") = some r ∧
      ∀ jar : CookieJar, Keyed.Distinct key jar.records →
        (storeResponseCookies oneHost 0 [] false true r.headers jar).records =
          (setCookieLines oneHost 0 [] false
            (setCookieValues (cookieAnswer "a=1; HttpOnly")) jar).records := by
  refine ⟨_, rfl, (stored_iff plainDeps oneHost 0 [] false false _ _ rfl).2 ?_⟩
  refine sameNet_of_plain (by decide) fun v hv => ?_
  rw [mem_singleton.1 hv]
  exact ⟨by decide, by decide, by decide, by decide, by decide⟩

/-- A tab before an attribute cuts the attribute off: the cookie is visible to scripts. -/
theorem tab_loses_httpOnly :
    ∃ r, kernelResponse plainDeps [] false (cookieAnswer "a=1;\tHttpOnly") = some r ∧
      (storeResponseCookies oneHost 0 [] false true r.headers .empty).records.map (·.httpOnly) =
        [false] ∧
      (setCookieLines oneHost 0 [] false
        (setCookieValues (cookieAnswer "a=1;\tHttpOnly")) .empty).records.map (·.httpOnly) =
        [true] :=
  ⟨_, rfl, by decide, by decide⟩

end ZeroProxy.Worker
