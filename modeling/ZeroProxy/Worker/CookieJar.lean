import ZeroProxy.Store.Keyed
import ZeroProxy.Text.Search

/-!
# The cookie jar

The jar that `createCookieJar` of `sw.js` makes: how a cookie line is parsed, which URLs a record is
for, when it expires, and the operations that the worker performs on the records.

Times are in milliseconds. A record is stored under its `key`.
-/

namespace ZeroProxy.Worker

open Text

/-- The parts of a URL that cookies depend on. -/
structure CookieUrl where
  protocol : Text
  hostname : Text
  pathname : Text

/-- Functions of the browser. -/
structure CookieEnv where
  /-- `new URL(url)`, unless it throws. -/
  parseUrl : Text → Option CookieUrl
  /-- `Date.parse`, unless it is `NaN`. -/
  dateParse : Text → Option Int

/-- A record of the jar. -/
structure Cookie where
  name : Text
  value : Text
  domain : Text
  hostOnly : Bool
  path : Text
  secure : Bool
  httpOnly : Bool
  sameSite : Text
  expires : Option Int
  maxAge : Option Int
  creation : Int
  session : Bool
  deriving DecidableEq

def Cookie.key (r : Cookie) : Text × Text × Text := (r.name, r.domain, r.path)

/-! ## Hosts -/

def canonHost (h : Text) : Text :=
  let h := jsLower h
  (stripSuffix "." h).getD h

def isNumericHost (h : Text) : Bool :=
  (split (· == '.') h).all fun p => !p.isEmpty && p.all isAsciiDigit

def secondLevelSuffix : List Text := ["co", "ne", "or", "ac", "go", "re", "pe", "kg", "seoul",
    "busan", "com", "net", "org", "gov", "edu", "mil", "int", "info", "biz", "nom"]

/-- The last `n` parts of a host. -/
def lastParts (n : Nat) (parts : List Text) : Text :=
  ".".toList.intercalate (parts.drop (parts.length - n))

def registrableDomain (host : Text) : Text :=
  let h := canonHost host
  if h.isEmpty || isNumericHost h || List.elem ':' h then h
  else
    let parts := split (· == '.') h
    match parts.reverse with
    | tld :: sld :: _ :: _ =>
      if tld.length == 2 && secondLevelSuffix.contains sld then lastParts 3 parts
      else lastParts 2 parts
    | _ => h

/-- `isPublicSuffixDomain`. -/
def isPublicSuffixDomain (dom : Text) : Bool :=
  let d := canonHost dom
  if d.isEmpty then true
  else if isNumericHost d || List.elem ':' d then false
  else
    match split (· == '.') d with
    | [] | [_] => true
    | [sld, tld] =>
      if tld.length == 2 && secondLevelSuffix.contains sld then true
      else registrableDomain d != d
    | _ => registrableDomain d != d

def isLoopbackAddress (h : Text) : Bool :=
  match split (· == '.') h with
  | [a, b, c, d] => a == "127" &&
      [b, c, d].all fun p => !p.isEmpty && decide (p.length ≤ 3) && p.all isAsciiDigit
  | _ => false

/-- `secureForCookies`: a secure scheme or a loopback host. -/
def secureForCookies (u : CookieUrl) : Bool :=
  if u.protocol == "https:" || u.protocol == "wss:" then true
  else
    let h := canonHost u.hostname
    h == "localhost" || ".localhost".toList.isSuffixOf h || h == "[::1]" ||
      isLoopbackAddress h

/-! ## The rules of a read -/

def CookieUrl.path (u : CookieUrl) : Text := if u.pathname.isEmpty then ['/'] else u.pathname

def defaultPath (u : CookieUrl) : Text :=
  match u.path.head?, rfindChar (· == '/') u.path with
  | some '/', some i => if i = 0 then ['/'] else u.path.take i
  | _, _ => ['/']

def domainMatch (host domain : Text) (hostOnly : Bool) : Bool :=
  if domain.isEmpty then false
  else if hostOnly then host == domain
  else host == domain || ('.' :: domain).isSuffixOf host

def pathMatch (reqPath cookiePath : Text) : Bool :=
  let cookiePath := if cookiePath.isEmpty then ['/'] else cookiePath
  if reqPath == cookiePath then true
  else if !cookiePath.isPrefixOf reqPath then false
  else cookiePath.getLast? == some '/' || reqPath[cookiePath.length]? == some '/'

def expired (r : Cookie) (now : Int) : Bool :=
  match r.maxAge with
  | some n => if n ≤ 0 then true else decide (r.creation + n * 1000 < now)
  | none => r.expires.any fun t => decide (t < now)

/-- A reader: the headers of a request, which see `HttpOnly` cookies, or a script, and whether
    the request is cross-site. -/
structure Reader where
  includeHttpOnly : Bool
  crossSite : Bool

/-- The rules of domain, path, `Secure`, `HttpOnly` and `SameSite` let the reader of a URL see
    the record. -/
def admits (u : CookieUrl) (reader : Reader) (r : Cookie) : Bool :=
  (reader.includeHttpOnly || !r.httpOnly) &&
    (!reader.crossSite || r.sameSite == "none") &&
    domainMatch (canonHost u.hostname) r.domain r.hostOnly &&
    pathMatch u.path r.path && (!r.secure || secureForCookies u)

/-! ## Lines -/

/-- `parseInt(v, 10)`, unless it is `NaN`. -/
def parseInt (v : Text) : Option Int :=
  let v := v.dropWhile isJsWhitespace
  let digits := (match v with
    | '-' :: t | '+' :: t => t
    | t => t).takeWhile isAsciiDigit
  let n : Nat := digits.foldl (fun n c => 10 * n + (c.toNat - 0x30)) 0
  if digits.isEmpty then none else some (if v.head? = some '-' then -(n : Int) else n)

/-- An attribute of a line: its name in lower case, and its value. -/
def splitAttribute (attr : Text) : Text × Text :=
  match findChar (· == '=') attr with
  | some i => (jsLower (jsTrim (attr.take i)), jsTrim (attr.drop (i + 1)))
  | none => (jsLower (jsTrim attr), [])

/-- The record with an attribute of the line. Attributes that are refused change nothing. -/
def applyAttribute (env : CookieEnv) (host : Text) (r : Cookie) (attr : Text) : Cookie :=
  let (k, v) := splitAttribute attr
  if k = "domain" ∧ v ≠ [] then
    let dom := canonHost ((stripPrefix "." v).getD v)
    if dom.isEmpty || isPublicSuffixDomain dom || !domainMatch host dom false then r
    else { r with domain := dom, hostOnly := false }
  else if k = "path" ∧ v.head? = some '/' then { r with path := v }
  else if k = "expires" ∧ v ≠ [] then
    match env.dateParse v with
    | some t => { r with expires := some t }
    | none => r
  else if k = "max-age" ∧ v ≠ [] then
    match parseInt v with
    | some n => { r with maxAge := some n }
    | none => r
  else if k = "secure" then { r with secure := true }
  else if k = "httponly" then { r with httpOnly := true }
  else if k = "samesite" then { r with sameSite := jsLower v }
  else r

/-- The parts of a line: it is split at semicolons and the white space after them. -/
def lineParts (line : Text) : Text × List Text :=
  match split (· == ';') line with
  | [] => ([], [])
  | head :: attrs => (head, attrs.map fun a => a.dropWhile isJsWhitespace)

/-- `parse`: the record of a line, at a time. -/
def parse (env : CookieEnv) (now : Int) (line url : Text) : Option Cookie := do
  let u ← env.parseUrl url
  let head := (lineParts line).1
  let eq ← findChar (· == '=') head
  let name := jsTrim (head.take eq)
  if eq = 0 ∨ name = [] ∨ name.any (fun c => "=;\r\n".toList.contains c) then none
  else
    let host := canonHost u.hostname
    let r : Cookie :=
      { name, value := head.drop (eq + 1), domain := host, hostOnly := true, path := defaultPath u,
        secure := false, httpOnly := false, sameSite := [], expires := none, maxAge := none,
        creation := now, session := false }
    some ((lineParts line).2.foldl (applyAttribute env host) r)

/-! ## The jar -/

open Bool Keyed List

def cookieSessionTtlMs : Int := 7 * 24 * 60 * 60 * 1000

/-- What is reported of a change (without the number that identifies the report). -/
structure CookieChange where
  name : Text
  value : Text
  domain : Text
  hostOnly : Bool
  path : Text
  secure : Bool
  httpOnly : Bool
  sameSite : Text
  expires : Option Int
  deleted : Bool
  wid : Option Text

/-- The records of a jar, and whether they have to be written to the database. -/
structure CookieJar where
  records : List Cookie
  dirty : Bool

def CookieJar.empty : CookieJar := ⟨[], false⟩

/-- What a line comes with: whether it arrives cross-site, and the identifier of the write. -/
structure LineMeta where
  crossSite : Bool
  wid : Option Text

/-! ## Operations -/

def changeFor (r : Cookie) (deleted : Bool) (wid : Option Text) : CookieChange where
  name := r.name
  value := r.value
  domain := r.domain
  hostOnly := r.hostOnly
  path := r.path
  secure := r.secure
  httpOnly := r.httpOnly
  sameSite := r.sameSite
  expires := if r.session then none else
    match r.maxAge with
    | some n => some (r.creation + n * 1000)
    | none => r.expires
  deleted := deleted
  wid := wid

/-- The record that a line sets, unless it is refused. -/
def accepted (env : CookieEnv) (now : Int) (url line : Text) (crossSite : Bool) : Option Cookie :=
  (parse env now line url).filter fun r => !crossSite || r.sameSite == "none"

def Cookie.deletes (r : Cookie) : Bool := r.maxAge.any fun n => decide (n ≤ 0)

open Cookie

/-- The record with the lifetime that bounds session cookies. -/
def Cookie.bounded (r : Cookie) (now : Int) : Cookie :=
  if r.maxAge.isNone && r.expires.isNone then
    { r with expires := some (now + cookieSessionTtlMs), session := true }
  else r

/-- The record `r` in place of `old`, whose creation time stays. -/
def Cookie.replacing (r old : Cookie) : Cookie := { r with creation := old.creation }

/-- `setCookieLine`. -/
def setCookieLine (env : CookieEnv) (jar : CookieJar) (now : Int) (url line : Text)
    (m : LineMeta) : CookieJar × Option CookieChange :=
  match accepted env now url line m.crossSite with
  | none => (jar, none)
  | some r =>
    if r.deletes then
      (⟨erase key r.key jar.records, jar.dirty || (lookup key r.key jar.records).isSome⟩,
        some (changeFor r true m.wid))
    else
      let r := r.bounded now
      let stored := ((lookup key r.key jar.records).map r.replacing).getD r
      (⟨put key r.replacing r jar.records, true⟩,
        some (changeFor stored (expired stored now) m.wid))

/-- The order of the cookies of a URL: longer paths first, then earlier creation. -/
def cookieOrder (a b : Cookie) : Bool :=
  decide (b.path.length < a.path.length) ||
    (b.path.length == a.path.length && decide (a.creation ≤ b.creation))

/-- `cookiesForURL`: the jar without the records that have expired, and the cookies of the
    URL. The records are visited from the last to the first. -/
def cookiesForURL (env : CookieEnv) (jar : CookieJar) (now : Int) (url : Text) (reader : Reader) :
    CookieJar × List Cookie :=
  match env.parseUrl url with
  | none => (jar, [])
  | some u =>
    let alive := jar.records.filter fun r => !expired r now
    (⟨alive, jar.dirty⟩, (alive.filter (admits u reader)).reverse.insertionSort (cookieOrder · ·))

/-- Cookies as they are written in a header. -/
def cookieString (cookies : List Cookie) : Text :=
  "; ".toList.intercalate (cookies.map fun r => r.name ++ '=' :: r.value)

def snapshot (jar : CookieJar) (now : Int) : List Cookie :=
  jar.records.filter fun r => !expired r now

/-- The records that `merge` takes. -/
def restorable (now : Int) (r : Cookie) : Bool :=
  !r.name.isEmpty && !r.domain.isEmpty &&
    match r.maxAge with
    | some n => decide (0 < n) && decide (now < r.creation + n * 1000)
    | none => r.expires.all fun t => decide (now < t)

/-- `merge`: the records that are alive and whose keys are free are added, one by one. -/
def merge (jar : CookieJar) (now : Int) (restored : List Cookie) : CookieJar :=
  let restore records r := if restorable now r then add key r records else records
  ⟨restored.foldl restore jar.records, jar.dirty⟩

/-! ## Runs -/

/-- An operation on a jar. -/
inductive JarOp
  | set (url line : Text) (m : LineMeta)
  | merge (restored : List Cookie)
  | read (url : Text) (reader : Reader)
  | snapshot

/-- The jar after an operation, and what it returns when it is a read. -/
def jarStep (env : CookieEnv) (jar : CookieJar) (now : Int) : JarOp → CookieJar × List (List Cookie)
  | .set url line m => ((setCookieLine env jar now url line m).1, [])
  | .merge restored => (Worker.merge jar now restored, [])
  | .read url reader =>
    ((cookiesForURL env jar now url reader).1, [(cookiesForURL env jar now url reader).2])
  | .snapshot => (jar, [])

/-- The jar after a sequence of operations, and the results of its reads. -/
def runJar (env : CookieEnv) (jar : CookieJar) : List (Int × JarOp) → CookieJar × List (List Cookie)
  | [] => (jar, [])
  | (now, op) :: ops =>
    let (jar, result) := jarStep env jar now op
    let (jar, results) := runJar env jar ops
    (jar, result ++ results)

/-- The operations are performed at times from `t` on, one not before the other. -/
def Timed (t : Int) (ops : List (Int × JarOp)) : Prop := (t :: ops.map (·.1)).Pairwise (· ≤ ·)

/-! ## Keys -/

section

variable {env : CookieEnv} {jar : CookieJar} {now : Int} {url line : Text} {m : LineMeta}
  {reader : Reader} {r : Cookie}

@[simp] theorem key_bounded (r : Cookie) (now : Int) : (r.bounded now).key = r.key := by
  rw [bounded]
  split <;> rfl

@[simp] theorem key_replacing (r old : Cookie) : (r.replacing old).key = r.key := rfl

theorem records_setCookieLine : (setCookieLine env jar now url line m).1.records =
      match accepted env now url line m.crossSite with
      | none => jar.records
      | some r => if r.deletes then erase key r.key jar.records
        else put key (r.bounded now).replacing (r.bounded now) jar.records := by
  rw [setCookieLine]
  cases accepted env now url line m.crossSite with
  | none => rfl
  | some r =>
    dsimp only
    split <;> rfl

theorem records_cookiesForURL : (cookiesForURL env jar now url reader).1.records =
      if (env.parseUrl url).isSome then jar.records.filter fun r => !expired r now
      else jar.records := by
  rw [cookiesForURL]
  cases env.parseUrl url <;> rfl

theorem merge_induction {motive : List Cookie → Prop} {restored : List Cookie}
    (h0 : motive jar.records)
    (hadd : ∀ r ∈ restored, ∀ l, restorable now r → motive l → motive (add key r l)) :
    motive (merge jar now restored).records := by
  refine foldlRecOn restored _ h0 fun l hl r hr => ?_
  split
  · exact hadd r hr l ‹_› hl
  · exact hl

theorem distinct_setCookieLine (h : Keyed.Distinct key jar.records) :
    Keyed.Distinct key (setCookieLine env jar now url line m).1.records := by
  rw [records_setCookieLine]
  split
  · exact h
  · split
    · exact distinct_erase h
    · exact distinct_put (fun _ _ => key_replacing _ _) h

theorem distinct_cookiesForURL (h : Keyed.Distinct key jar.records) :
    Keyed.Distinct key (cookiesForURL env jar now url reader).1.records := by
  rw [records_cookiesForURL]
  split
  · exact distinct_filter h _
  · exact h

theorem distinct_jarStep (op : JarOp) (h : Keyed.Distinct key jar.records) :
    Keyed.Distinct key (jarStep env jar now op).1.records := by
  cases op with
  | set url line m => exact distinct_setCookieLine h
  | merge restored => exact merge_induction h fun _ _ _ _ => distinct_add
  | read url reader => exact distinct_cookiesForURL h
  | snapshot => exact h

theorem runJar_induction {P : CookieJar → Prop} (hstep : ∀ jar now op, P jar →
    P (jarStep env jar now op).1) (h : P jar) (ops : List (Int × JarOp)) :
    P (runJar env jar ops).1 := by
  induction ops generalizing jar with
  | nil => exact h
  | cons o ops ih => exact ih (hstep jar o.1 o.2 h)

theorem distinct_runJar (ops : List (Int × JarOp)) :
    Keyed.Distinct key (runJar env .empty ops).1.records :=
  @runJar_induction env .empty (fun jar => Keyed.Distinct key jar.records)
    (fun _ _ op h => distinct_jarStep op h) distinct_nil ops

/-! ## Accepted lines -/

theorem applyAttribute_spec (host : Text) (r : Cookie) (attr : Text) :
    (applyAttribute env host r attr).name = r.name ∧
      (applyAttribute env host r attr).creation = r.creation := by
  rw [applyAttribute]
  dsimp only
  repeat' split
  all_goals exact ⟨rfl, rfl⟩

theorem accepted_spec {crossSite : Bool} (h : accepted env now url line crossSite = some r) :
    r.name ≠ [] ∧ r.creation = now := by
  obtain ⟨hparse, -⟩ := Option.filter_eq_some_iff.1 h
  rw [parse] at hparse
  obtain ⟨u, -, hparse⟩ := Option.bind_eq_some_iff.1 hparse
  obtain ⟨i, -, hparse⟩ := Option.bind_eq_some_iff.1 hparse
  by_cases hok : i = 0 ∨ jsTrim (take i (lineParts line).1) = [] ∨
      (jsTrim (take i (lineParts line).1)).any fun c => "=;\r\n".toList.contains c
  · rw [if_pos hok] at hparse
    cases hparse
  rw [if_neg hok] at hparse
  cases hparse
  refine foldlRecOn (motive := fun r : Cookie => r.name ≠ [] ∧ r.creation = now) _ _ ?_
    fun r hr attr _ => ?_
  · exact ⟨fun hnil => hok (.inr (.inl hnil)), rfl⟩
  · obtain ⟨hname, hcreation⟩ := @applyAttribute_spec env (canonHost u.hostname) r attr
    rwa [hname, hcreation]

theorem name_ne_nil_runJar (ops : List (Int × JarOp)) :
    ∀ r ∈ (runJar env .empty ops).1.records, r.name ≠ [] := by
  refine @runJar_induction env .empty (fun jar => ∀ r ∈ jar.records, r.name ≠ [])
    (fun jar now op h => ?_) (fun _ hr => absurd hr not_mem_nil) ops
  cases op with
  | set url line m =>
    rw [jarStep, records_setCookieLine]
    cases hacc : accepted env now url line m.crossSite with
    | none => exact h
    | some r =>
      have hr := (accepted_spec hacc).1
      dsimp only
      split
      · exact fun z hz => h z (mem_of_mem_eraseP hz)
      · intro z hz
        rcases mem_or_of_mem_put hz with hz | rfl | ⟨old, -, rfl⟩
        · exact h z hz
        · exact hr ∘ (congrArg Prod.fst (key_bounded r now)).symm.trans
        · exact hr ∘ (congrArg Prod.fst (key_bounded r now)).symm.trans
  | merge restored =>
    refine merge_induction (motive := fun l => ∀ r ∈ l, r.name ≠ []) h fun r _ l hr hl z hz => ?_
    rcases mem_add.1 hz with hz | ⟨rfl, -⟩
    · exact hl z hz
    · intro hnil
      rw [restorable, hnil] at hr
      cases hr
  | read url reader =>
    rw [jarStep, records_cookiesForURL]
    split
    · exact fun r hr => h r (mem_of_mem_filter hr)
    · exact h
  | snapshot => exact h

/-! ## Reads -/

theorem cookiesForURL_perm {u : CookieUrl} (hu : env.parseUrl url = some u) :
    (cookiesForURL env jar now url reader).2.Perm
      (jar.records.filter fun r => !expired r now && admits u reader r) := by
  rw [cookiesForURL, hu]
  refine (perm_insertionSort _ _).trans ((reverse_perm _).trans ?_)
  rw [filter_filter]
  refine Perm.of_eq (filter_congr fun r _ => ?_)
  exact and_comm _ _

theorem mem_cookiesForURL {u : CookieUrl} (hu : env.parseUrl url = some u) :
    r ∈ (cookiesForURL env jar now url reader).2 ↔
      r ∈ jar.records ∧ expired r now = false ∧ admits u reader r := by
  rw [(cookiesForURL_perm hu).mem_iff, mem_filter, and_eq_true, not_eq_true']

theorem cookiesForURL_congr {a b : CookieJar} {p : Cookie → Bool}
    (hp : ∀ u, env.parseUrl url = some u → ∀ r, admits u reader r → p r)
    (h : a.records.filter p = b.records.filter p) :
    (cookiesForURL env a now url reader).2 = (cookiesForURL env b now url reader).2 := by
  rw [cookiesForURL, cookiesForURL]
  cases hu : env.parseUrl url with
  | none => rfl
  | some u =>
    -- The rules are applied to the admissible records only, and expiry commutes with that.
    have hadm (l : List Cookie) : (l.filter fun r => !expired r now).filter (admits u reader) =
        ((l.filter p).filter fun r => !expired r now).filter (admits u reader) := by
      rw [filter_filter, filter_filter, filter_filter]
      refine filter_congr fun r _ => ?_
      by_cases hr : admits u reader r
      · rw [hp u hu r hr, Bool.and_true]
      · rw [eq_false_iff.2 hr, Bool.false_and, Bool.false_and]
    dsimp only
    rw [hadm a.records, h, ← hadm b.records]

/-! ## What later operations can tell -/

/-- Some URL is in the domain and under the path of a key. -/
def VisibleKey (env : CookieEnv) (k : Text × Text × Text) : Prop :=
  ∃ url u, env.parseUrl url = some u ∧ domainMatch (canonHost u.hostname) k.2.1 false ∧
    pathMatch u.path k.2.2

theorem domainMatch_false_of {host domain : Text} {hostOnly : Bool}
    (h : domainMatch host domain hostOnly) : domainMatch host domain false := by
  cases hostOnly with
  | false => exact h
  | true =>
    rw [domainMatch] at h ⊢
    split at h
    · cases h
    · rw [if_neg ‹_›, if_neg Bool.false_ne_true, show (host == domain) from h, Bool.true_or]

theorem VisibleKey.of_admits {u : CookieUrl} (hu : env.parseUrl url = some u)
    (h : admits u reader r) : VisibleKey env r.key := by
  rw [admits] at h
  simp only [and_eq_true] at h
  exact ⟨url, u, hu, domainMatch_false_of h.1.1.2, h.1.2⟩

/-- Two jars have the same records under the keys in `p`. -/
def Alike (p : Text × Text × Text → Bool) (a b : CookieJar) : Prop :=
  a.records.filter (fun r => p r.key) = b.records.filter fun r => p r.key

section Alike

variable {p : Text × Text × Text → Bool} {a b : CookieJar}

theorem Alike.setCookieLine (h : Alike p a b) :
    Alike p (setCookieLine env a now url line m).1 (setCookieLine env b now url line m).1 := by
  rw [Alike, records_setCookieLine, records_setCookieLine]
  cases accepted env now url line m.crossSite with
  | none => exact h
  | some r =>
    dsimp only
    split
    · rw [filter_erase, filter_erase, h]
    · rw [filter_put fun _ _ => key_replacing _ _, filter_put fun _ _ => key_replacing _ _, h]

theorem Alike.merge (h : Alike p a b) (restored : List Cookie) :
    Alike p (merge a now restored) (merge b now restored) := by
  rw [Alike, Worker.merge, Worker.merge]
  have hrec : a.records.filter (fun r => p r.key) = b.records.filter (fun r => p r.key) := h
  generalize a.records = x, b.records = y at hrec
  induction restored generalizing x y with
  | nil => exact hrec
  | cons r restored ih =>
    refine ih _ _ ?_
    dsimp only
    split
    · rw [filter_add, filter_add, hrec]
    · exact hrec

theorem Alike.cookiesForURL (h : Alike p a b) :
    Alike p (cookiesForURL env a now url reader).1 (cookiesForURL env b now url reader).1 := by
  rw [Alike, records_cookiesForURL, records_cookiesForURL]
  split
  · rw [filter_comm, h, filter_comm]
  · exact h

theorem Alike.jarStep (hp : ∀ k, VisibleKey env k → p k) (h : Alike p a b) (now : Int)
    (op : JarOp) :
    Alike p (jarStep env a now op).1 (jarStep env b now op).1 ∧
      (jarStep env a now op).2 = (jarStep env b now op).2 := by
  cases op with
  | set url line m => exact ⟨h.setCookieLine, rfl⟩
  | merge restored => exact ⟨h.merge restored, rfl⟩
  | read url reader =>
    refine ⟨h.cookiesForURL, congrArg (fun l => [l]) (cookiesForURL_congr (fun u hu r hr => ?_) h)⟩
    exact hp r.key (.of_admits hu hr)
  | snapshot => exact ⟨h, rfl⟩

theorem Alike.runJar (hp : ∀ k, VisibleKey env k → p k) (h : Alike p a b)
    (ops : List (Int × JarOp)) : (runJar env a ops).2 = (runJar env b ops).2 := by
  induction ops generalizing a b with
  | nil => rfl
  | cons o ops ih =>
    obtain ⟨hstep, hresult⟩ := h.jarStep hp o.1 o.2
    exact congrArg₂ (· ++ ·) hresult (ih hstep)

end Alike

/-! ## The laws of the jar -/

/-- A read returns exactly the stored records that are alive and admitted. -/
def ReadsExactly (env : CookieEnv) (jar : CookieJar) (now : Int) (url : Text) (reader : Reader) :
    Prop :=
  ∀ u, env.parseUrl url = some u → (cookiesForURL env jar now url reader).2.Perm
    (jar.records.filter fun r => !expired r now && admits u reader r)

/-- A read changes the result of no later read. -/
def Unobserved (env : CookieEnv) (jar : CookieJar) (now : Int) (url : Text) (reader : Reader) :
    Prop :=
  ∀ ops, Timed now ops → (runJar env (cookiesForURL env jar now url reader).1 ops).2 =
    (runJar env jar ops).2

theorem unobserved_of_invisible (h : (env.parseUrl url).isSome →
    ∀ r ∈ jar.records, expired r now → ¬ VisibleKey env r.key) :
    Unobserved env jar now url reader := by
  classical
  intro ops _
  refine Alike.runJar (p := fun k => decide (VisibleKey env k))
    (fun k hk => decide_eq_true hk) ?_ ops
  rw [Alike, records_cookiesForURL]
  split
  · rename_i hu
    rw [filter_filter]
    refine filter_congr fun r hr => ?_
    cases hexp : expired r now with
    | false => exact and_true _
    | true => rw [decide_eq_false (h hu r hr hexp), Bool.false_and]
  · rfl

/-- A record that everybody may see, for the key of another. -/
def Cookie.revenant (r : Cookie) (now : Int) : Cookie where
  name := r.name
  value := []
  domain := r.domain
  hostOnly := false
  path := r.path
  secure := false
  httpOnly := false
  sameSite := "none"
  expires := some (now + 1)
  maxAge := none
  creation := now
  session := false

theorem not_unobserved_of_visible (hl : Keyed.Distinct key jar.records)
    (hr : r ∈ jar.records) (hname : r.name ≠ []) (hexp : expired r now)
    (hvis : VisibleKey env r.key) (hu : (env.parseUrl url).isSome) :
    ¬ Unobserved env jar now url reader := by
  obtain ⟨url', u', hu', hdom, hpath⟩ := hvis
  intro h
  have hrest : restorable now (r.revenant now) := by
    have hd : r.domain ≠ [] := by
      intro hnil
      rw [show r.key.2.1 = [] from hnil] at hdom
      cases hdom
    have hlt : now < now + 1 := Int.lt_succ now
    rw [restorable]
    simp [revenant, hname, hd, hlt]
  have hadm : admits u' ⟨false, false⟩ (r.revenant now) := by
    rw [admits]
    simp only [and_eq_true]
    exact ⟨⟨⟨⟨rfl, rfl⟩, hdom⟩, hpath⟩, rfl⟩
  have hruns := h [(now, .merge [r.revenant now]), (now, .read url' ⟨false, false⟩)]
    (by simp [Timed])
  have hread : (cookiesForURL env (merge (cookiesForURL env jar now url reader).1 now
      [r.revenant now]) now url' ⟨false, false⟩).2 =
      (cookiesForURL env (merge jar now [r.revenant now]) now url' ⟨false, false⟩).2 :=
    (cons.inj hruns).1
  have hmerge (jar : CookieJar) : (merge jar now [r.revenant now]).records =
      add key (r.revenant now) jar.records := by
    rw [merge, foldl_cons, foldl_nil, if_pos hrest]
  -- After the read the restored record is stored and shown,
  have hshown : r.revenant now ∈ (cookiesForURL env (merge (cookiesForURL env jar now url reader).1
      now [r.revenant now]) now url' ⟨false, false⟩).2 := by
    rw [mem_cookiesForURL hu', hmerge, mem_add, records_cookiesForURL, if_pos hu]
    have halive : expired (r.revenant now) now = false :=
      decide_eq_false (not_lt.2 (Int.le.intro 1 rfl))
    refine ⟨.inr ⟨rfl, ?_⟩, halive, hadm⟩
    rintro hkey
    obtain ⟨z, hz, hzkey⟩ := mem_map.1 hkey
    obtain ⟨hz, halive⟩ := mem_filter.1 hz
    rw [inj_on_of_nodup_map hl hz hr hzkey, hexp] at halive
    cases halive
  -- but without the read the old record keeps its place.
  rw [hread, mem_cookiesForURL hu', hmerge, mem_add] at hshown
  rcases hshown.1 with hmem | ⟨-, hfree⟩
  · have := inj_on_of_nodup_map hl hmem hr rfl
    rw [this, hexp] at hshown
    cases hshown.2.1
  · exact hfree (mem_map.2 ⟨r, hr, rfl⟩)

/-- After any sequence of operations on an empty jar, keys are unique, a read is exact, and it
    changes no later read, if and only if the read drops no record that some URL could see. -/
theorem jar_laws_iff (env : CookieEnv) (ops : List (Int × JarOp)) (now : Int) (url : Text)
    (reader : Reader) :
    (Keyed.Distinct key (runJar env .empty ops).1.records ∧
      ReadsExactly env (runJar env .empty ops).1 now url reader ∧
      Unobserved env (runJar env .empty ops).1 now url reader) ↔
        ((env.parseUrl url).isSome → ∀ r ∈ (runJar env .empty ops).1.records, expired r now →
          ¬ VisibleKey env r.key) := by
  constructor
  · rintro ⟨hl, -, hun⟩ hu r hr hexp hvis
    exact not_unobserved_of_visible hl hr (name_ne_nil_runJar ops r hr) hexp hvis hu hun
  · exact fun h => ⟨distinct_runJar ops, fun u hu => cookiesForURL_perm hu,
      unobserved_of_invisible h⟩

/-- A browser in which every URL is the root of one host. -/
def oneHost : CookieEnv where
  parseUrl := fun _ => some ⟨"https:", "shop.test", "/"⟩
  dateParse := fun _ => none

/-- A cookie of one second is set at time 0 and one of ten seconds at time 2000. A read at
    12000 shows the second one after a read at 2000, and does not without that read. -/
theorem read_at_2000_observed : ¬ Unobserved oneHost
      (runJar oneHost .empty [(0, .set [] "a=1; Max-Age=1" ⟨false, none⟩)]).1 2000 []
      ⟨true, false⟩ := by
  intro h
  have htimed : Timed 2000 [(2000, .set [] "a=2; Max-Age=10" ⟨false, none⟩),
      (12000, .read [] ⟨true, false⟩)] := by simp [Timed]
  exact absurd (h _ htimed) (by decide)

/-! ## Restarts -/

theorem foldl_add {p : Cookie → Bool} {l l' : List Cookie} (h : Keyed.Distinct key (l ++ l')) :
    l'.foldl (fun l r => if p r then add key r l else l) l = l ++ l'.filter p := by
  induction l' generalizing l with
  | nil => simp
  | cons r l' ih =>
    have hr : r.key ∉ l.map key := by grind [Keyed.Distinct]
    have hrest := @ih l (by grind [Keyed.Distinct])
    have hnext := @ih (l ++ [r]) (by grind [Keyed.Distinct])
    grind [add]

/-- A jar that is saved and restored has the records it had, as far as they have a domain and neither
    had expired when it was saved nor expire by the millisecond of the restart. -/
theorem records_restart (env : CookieEnv) (ops : List (Int × JarOp)) (saved now : Int) :
    let jar := (runJar env .empty ops).1
    (merge .empty now (snapshot jar saved)).records = jar.records.filter fun r =>
      (!r.domain.isEmpty && !expired r (now + 1)) && !expired r saved := by
  intro jar
  have hl : Keyed.Distinct key ([] ++ snapshot jar saved) := distinct_filter (distinct_runJar ops) _
  refine (foldl_add hl).trans ?_
  rw [nil_append, Worker.snapshot, filter_filter]
  refine filter_congr fun r hr => congrArg (· && _) ?_
  have hname := name_ne_nil_runJar ops r hr
  rw [restorable, expired]
  cases r.maxAge with
  | none => cases r.expires <;> grind
  | some n => grind

/-! ## The order of a read -/

/-- The cookies that a read should show, in the order of the jar. A record keeps its place when its
    value is replaced, and a new one is the last. -/
def stored (env : CookieEnv) (jar : CookieJar) (now : Int) (url : Text) (reader : Reader) :
    List Cookie :=
  match env.parseUrl url with
  | none => []
  | some u => (jar.records.filter fun r => !expired r now).filter (admits u reader)

/-- Longer paths are first, and of paths that are as long the one that was stored first. -/
structure InOrder (shown stored : List Cookie) : Prop where
  paths : shown.Pairwise fun a b => b.path.length ≤ a.path.length
  alike : ∀ n, shown.filter (·.path.length == n) = stored.filter (·.path.length == n)

theorem cookieOrder_iff {a b : Cookie} : cookieOrder a b ↔ b.path.length < a.path.length ∨
    b.path.length = a.path.length ∧ a.creation ≤ b.creation := by
  simp [cookieOrder]

theorem pairwise_cookieOrder (l : List Cookie) :
    (l.insertionSort (cookieOrder · ·)).Pairwise (cookieOrder · ·) :=
  have : Std.Total fun a b => (cookieOrder a b : Prop) := ⟨fun a b => by
    rw [cookieOrder_iff, cookieOrder_iff]
    omega⟩
  have : IsTrans Cookie fun a b => cookieOrder a b := ⟨fun a b c => by
    simp only [cookieOrder_iff]
    omega⟩
  pairwise_insertionSort _ l

theorem not_sublist_swap {α : Type*} {l : List α} (hl : l.Nodup) {a b : α} (h : [a, b] <+ l) :
    ¬ [b, a] <+ l := by
  induction l with
  | nil => cases h
  | cons c l ih =>
    rw [nodup_cons] at hl
    intro h'
    cases h with
    | cons _ h =>
      cases h' with
      | cons _ h' => exact ih hl.2 h h'
      | cons_cons _ h' => exact hl.1 (h.subset (by simp))
    | cons_cons _ h =>
      cases h' with
      | cons _ h' | cons_cons _ h' => exact hl.1 (h'.subset (by simp))

theorem inOrder_iff {l : List Cookie} (hl : l.Nodup) :
    InOrder (l.reverse.insertionSort (cookieOrder · ·)) l ↔
      ∀ n, (l.filter (·.path.length == n)).Pairwise (·.creation < ·.creation) := by
  have hsorted := pairwise_cookieOrder l.reverse
  have hlen {m : List Cookie} {n : Nat} {r : Cookie} (hr : r ∈ m.filter (·.path.length == n)) :
      r.path.length = n := beq_iff_eq.1 (mem_filter.1 hr).2
  constructor
  · rintro ⟨-, halike⟩ n
    refine pairwise_iff_forall_sublist.2 fun {a b} hab => not_le.1 fun hle => ?_
    have ha := hlen (hab.subset (.head _))
    have hb := hlen (hab.subset (.tail _ (.head _)))
    have hback : [b, a] <+ l.reverse := (hab.trans filter_sublist).reverse
    have hshown := (pair_sublist_insertionSort (r := (cookieOrder · ·))
      (cookieOrder_iff.2 (.inr ⟨by omega, hle⟩)) hback).filter (·.path.length == n)
    rw [halike n] at hshown
    refine not_sublist_swap (hl.filter _) hab ?_
    simpa [ha, hb] using hshown
  · intro h
    refine ⟨hsorted.imp fun hab => ?_, fun n => ?_⟩
    · rcases cookieOrder_iff.1 hab with hlt | ⟨heq, -⟩ <;> omega
    have hperm := ((perm_insertionSort (cookieOrder · ·) l.reverse).trans (reverse_perm l)).filter
      (·.path.length == n)
    have hnodup : ((l.filter (·.path.length == n)).map (·.creation)).Nodup :=
      pairwise_map.2 ((h n).imp fun hlt => hlt.ne)
    refine hperm.eq_of_pairwise (fun a b ha hb hab hba => ?_) (hsorted.filter _)
      ((h n).imp_of_mem fun ha hb hlt => cookieOrder_iff.2 (.inr ⟨?_, hlt.le⟩))
    · rw [cookieOrder_iff] at hab hba
      exact inj_on_of_nodup_map hnodup (hperm.mem_iff.1 ha) hb (by omega)
    · rw [hlen ha, hlen hb]

/-- After any history of the jar, the cookies of a URL are in order if and only if, of those with
    paths that are as long, the one that was stored first has the earlier time. -/
theorem cookies_inOrder_iff (env : CookieEnv) (ops : List (Int × JarOp)) (now : Int) (url : Text)
    (reader : Reader) : let jar := (runJar env .empty ops).1
    InOrder (cookiesForURL env jar now url reader).2 (stored env jar now url reader) ↔
      ∀ n, ((stored env jar now url reader).filter (·.path.length == n)).Pairwise
        (·.creation < ·.creation) := by
  intro jar
  rw [cookiesForURL, stored]
  cases env.parseUrl url with
  | none => exact iff_of_true ⟨.nil, fun _ => rfl⟩ fun _ => .nil
  | some u => exact inOrder_iff ((((distinct_runJar ops).of_map _).filter _).filter _)

/-- Two cookies that are set in one millisecond are shown in the other order. -/
theorem cookies_of_one_millisecond : let jar := (runJar oneHost .empty
      [(0, .set [] "a=1" ⟨false, none⟩), (0, .set [] "b=2" ⟨false, none⟩)]).1
    ¬ InOrder (cookiesForURL oneHost jar 0 [] ⟨true, false⟩).2
      (stored oneHost jar 0 [] ⟨true, false⟩) :=
  fun h => absurd (h.alike 1) (by decide)

end

end ZeroProxy.Worker
