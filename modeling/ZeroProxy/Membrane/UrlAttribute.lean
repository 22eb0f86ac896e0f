import ZeroProxy.Url.Query
import ZeroProxy.Store.Memo

/-!
# URL attributes of the page

The membrane sees the URLs that a page gives its elements on two ways: `setAttribute`
calls its hook, and what gets past the hook, a mutation observer reports. On both ways it
tests the string for an executable scheme and, if it has one, writes something inert in
its place.

The test is a pattern on the trimmed string. The URL parser strips other characters at the
ends, and drops tabs and newlines inside.

The mutation observer resolves the URLs it meets through two caches: one for the
batch, from a string to its target, and one that keeps, for every element, the last string that
had a target. Neither knows the base URL. Before it handles a batch, the observer classifies the
attributes in it by the scheme at the head of the string, and enters those that have another
scheme than http(s) or ws(s), or none, as refused.
-/

namespace ZeroProxy.Membrane.UrlAttribute

open Bool List Option Text Url

/-! ## Elements -/

/-- An element, with what the membrane remembers about it. -/
structure Node where
  /-- The local name. -/
  tag : Text
  /-- The attributes by their names, in lower case. -/
  attrs : Text → Option Text
  /-- The target URL of the element. -/
  urlMeta : Option Text
  /-- The values that the page wrote. -/
  lit : Text → Option Text
  /-- The `javascript:` URL that the page gave a link or a form. -/
  javascriptURL : Option Text

namespace Node

variable (el : Node) (n v : Text)

/-- The element with the attribute `n` set. -/
def set : Node := { el with attrs := Function.update el.attrs n (some v) }

/-- The element without the attribute `n`. -/
def remove : Node := { el with attrs := Function.update el.attrs n none }

@[simp] theorem attrs_set_self : (el.set n v).attrs n = some v := Function.update_self ..

end Node

/-- The attributes whose literal value is also kept on the element. -/
def litSelectorAttrs : List Text := ["href", "src", "action", "formaction", "poster",
    "background", "srcset", "imagesrcset", "data"]

/-- The attribute that keeps the literal value of `key`. -/
def litAttrName (key : Text) : Text := "data-zp-lit-" ++ key

/-- The literal value of `key` is `v`. -/
def litSet (el : Node) (key v : Text) : Node :=
  let el := { el with lit := Function.update el.lit key (some v) }
  if key ∈ litSelectorAttrs then el.set (litAttrName key) v else el

/-- The literal value of `key` is forgotten. -/
def litDel (el : Node) (key : Text) : Node :=
  let el := { el with lit := Function.update el.lit key none }
  if key ∈ litSelectorAttrs then el.remove (litAttrName key) else el

/-! ## The tests -/

/-- The name of an attribute without its namespace, in lower case. -/
def attrLocalName (key : Text) : Text :=
  let s := jsLower key
  match s.findIdx? (· == ':') with
  | some i => s.drop (i + 1)
  | none => s

/-- The string begins, after white space, with one of the schemes. -/
def hasScheme (schemes : List Text) (raw : Text) : Bool :=
  schemes.any fun p => startsWithCI (jsTrim raw) p

def hasExecutableURLScheme : Text → Bool := hasScheme ["javascript:", "data:", "vbscript:"]

def hasDangerousURLScheme : Text → Bool := hasScheme ["javascript:", "vbscript:"]

def usesRawURLAttribute (tag localKey : Text) : Bool :=
  decide (localKey = "href" ∧ (tag = "a" ∨ tag = "area")) ||
    decide (localKey = "action" ∧ tag = "form") ||
    decide (localKey = "formaction" ∧ (tag = "input" ∨ tag = "button"))

def isFrame (tag : Text) : Bool := tag == "iframe" || tag == "frame"

/-- The membrane takes the string for executable. -/
def shouldBlockURLAttribute (tag localKey raw : Text) : Bool :=
  if decide (localKey = "src" ∧ tag = "script") ||
      decide (localKey = "src" ∧ isFrame tag) || usesRawURLAttribute tag localKey then
    hasExecutableURLScheme raw
  else hasDangerousURLScheme raw

/-- The elements and attributes that bear URLs. -/
def urlSurfaces : List (Text × Text) := [("a", "href"), ("area", "href"), ("audio", "src"),
    ("body", "background"), ("button", "formaction"), ("embed", "src"), ("feimage", "href"),
    ("form", "action"), ("frame", "src"), ("iframe", "src"), ("iframe", "srcdoc"),
    ("image", "href"), ("image", "src"), ("img", "src"), ("img", "srcset"), ("input", "formaction"),
    ("input", "src"), ("link", "href"), ("link", "imagesrcset"), ("object", "data"),
    ("script", "href"), ("script", "src"), ("source", "src"), ("source", "srcset"),
    ("table", "background"), ("td", "background"), ("th", "background"), ("tr", "background"),
    ("track", "src"), ("use", "href"), ("video", "poster"), ("video", "src")]

def isURLBearing (tag localKey : Text) : Bool := (jsLower tag, localKey) ∈ urlSurfaces

/-- The inert `javascript:` URL. -/
def inertURL : Text := "javascript:void(0)"

def blockedURLValue (tag key : Text) : Text := if key = "src" ∧ isFrame tag then "about:blank"
  else if key = "src" ∧ tag = "script" then "/zp/error/POLICY_BLOCKED"
  else "#"

/-! ## The two ways -/

/-- What the membrane uses of its other parts, and of the state it runs in. -/
structure Env where
  /-- The proxy's origin. -/
  proxyOrigin : Text
  /-- The http(s) target of a string, if it has one. -/
  targetURLForElement : Node → Text → Option Text
  /-- The proxy's address for navigating to a target. -/
  proxyViaURL : Text → Text
  /-- The proxy's address for a subresource. -/
  subresourceProxyPath : Text → Text
  /-- Routing the source of a script. -/
  setScriptSource : Node → Text → Node
  /-- Routing a script that is a blob; `none` when it cannot be read or rewritten. -/
  routeBlobScript : Node → Text → Option Node
  /-- The blob is a rewritten copy that the membrane made. -/
  isRewrittenBlob : Text → Bool
  /-- Loading a frame's document through the proxy, under an attribute; the document shown
      may be kept until then. -/
  routeFrameSrc : Node → Text → Text → Bool → Node
  /-- Forgetting such a load. -/
  cancelFrameRoute : Node → Node
  /-- Instrumenting a frame's window. -/
  instrumentIframe : Node → Node
  /-- It leaves the frame's source. -/
  instrumentIframe_src : ∀ el, (instrumentIframe el).attrs "src" = el.attrs "src"
  /-- Writing a subresource address under an attribute. -/
  setSubresourceAttribute : Node → Text → Text → Node
  /-- Exchanging such an address for a blob. -/
  upgradeSWLessURL : Node → Text → Text → Node
  /-- Rewriting the candidates of a list. -/
  enforceSrcsetAttribute : Node → Text → Text → Node
  /-- The policy for links. -/
  enforceLinkPolicy : Node → Node
  /-- The link's URL is taken away: `some` new element when its relation is blocked. -/
  blockedLink : Node → Text → Option Node
  /-- The link's URL is hidden: `some` new element when it is an icon. -/
  iconLink : Node → Text → Option Node
  /-- What the observer does about a script. -/
  enforceScript : Node → Node
  /-- What the observer does about a frame's markup. -/
  enforceSrcdoc : Node → Node
  /-- The frame's address is one of the proxy's own. -/
  isSiteFrameAddress : Text → Bool
  /-- The image that stands for one in a document without a service worker. -/
  swLessPixel : Text
  /-- The address that stands for a failed load there. -/
  swLessError : Text
  /-- The frame is in a document that loads nothing. -/
  inertFrameDocument : Node → Bool
  /-- Such a frame waits. -/
  parkFrameSrc : Node → Node

variable (env : Env)

/-- A blob that would run code. -/
def hasContextBlockedScheme (tag raw : Text) : Bool :=
  let s := jsTrim raw
  startsWithCI s "blob:" &&
    if tag = "script" then !env.isRewrittenBlob s
    else isFrame tag || tag == "embed" || tag == "object"

/-- An executable string is kept aside, and something inert is written under `key`. -/
def blockExecutableURL (el : Node) (key raw : Text) : Node :=
  let s := jsTrim raw
  let blob := if el.tag = "script" ∧ key = "src" ∧ startsWithCI s "blob:" then
    env.routeBlobScript el s else none
  match blob with
  | some el => el
  | none =>
    if startsWithCI s "javascript:" ∧
        ((key = "href" ∧ (el.tag = "a" ∨ el.tag = "area")) ∨
          (key = "action" ∧ el.tag = "form")) then
      let kind := if el.tag = "form" then "form".toList else "anchor"
      let el := litSet { el with javascriptURL := some s } key s
      (el.set "data-zp-jsurl-kind" kind).set key inertURL
    else
      let value := blockedURLValue el.tag key
      let el := { el with urlMeta := none }
      let el := (el.set "data-zp-target-url" []).set "data-zp-blocked-url" s
      let el := el.set key value
      if key = "src" ∧ isFrame el.tag then env.instrumentIframe el else el

/-- The hook of `setAttribute`, for an attribute that bears a URL. Attributes that do not
    are set as the page wishes. -/
def setAttribute (el : Node) (k v : Text) : Node :=
  let key := jsLower k
  let localKey := attrLocalName k
  let link := if el.tag = "link" ∧ localKey = "href" then
    (env.blockedLink el v).or (env.iconLink (litSet el "href" v) v) else none
  match link with
  | some el => el
  | none =>
    if el.tag = "script" ∧ (localKey = "src" ∨ localKey = "href") then
      env.setScriptSource el v
    else if !isURLBearing el.tag localKey then el.set key v
    else if localKey = "srcset" ∨ localKey = "imagesrcset" then
      env.enforceSrcsetAttribute ((litSet el localKey v).set key v) key v
    else if v.head? = some '#' then
      ((litDel { el with urlMeta := none } localKey).remove "data-zp-target-url").set key v
    else if shouldBlockURLAttribute el.tag localKey v || hasContextBlockedScheme env el.tag v then
      blockExecutableURL env el localKey v
    else match env.targetURLForElement el v with
      | some t =>
        let el := (litSet { el with urlMeta := some t } localKey v).set "data-zp-target-url" t
        if isFrame el.tag ∧ localKey = "src" then env.routeFrameSrc el key t true
        else if usesRawURLAttribute el.tag localKey then el.set key (env.proxyViaURL t)
        else env.setSubresourceAttribute el key (env.subresourceProxyPath t)
      | none =>
        let el := if isFrame el.tag ∧ localKey = "src" then
          (litDel { env.cancelFrameRoute el with urlMeta := none } localKey).remove
            "data-zp-target-url"
          else el
        el.set key v

def routeObserved (el : Node) (key raw : Text) : Node :=
  let localKey := attrLocalName key
  if raw.isEmpty then el
  else if env.proxyOrigin.isPrefixOf raw then env.upgradeSWLessURL el key raw
  else if isFrame el.tag ∧ localKey = "src" ∧ env.isSiteFrameAddress raw then el
  else if startsWithCI raw "blob:" then el
  else if raw = env.swLessError then el
  else if raw = env.swLessPixel then env.upgradeSWLessURL el key raw
  else match env.targetURLForElement el raw with
    | none => el
    | some target =>
      let el := if (el.lit localKey).isNone ∧ (el.attrs (litAttrName localKey)).isNone then
        litSet el localKey raw else el
      let frame := isFrame el.tag ∧ localKey = "src"
      if frame ∧ env.inertFrameDocument el then
        env.parkFrameSrc ({ el with urlMeta := some target }.set "data-zp-target-url" target)
      else
        let usesRaw := usesRawURLAttribute el.tag localKey
        let alreadyMapped := decide (el.urlMeta = some target) &&
          (usesRaw || decide (el.attrs "data-zp-target-url" = some target))
        let el := { el with urlMeta := some target }
        let el := if usesRaw then el else el.set "data-zp-target-url" target
        if frame then env.instrumentIframe (env.routeFrameSrc el key target false)
        else if alreadyMapped || usesRaw then el
        else env.setSubresourceAttribute el key (env.subresourceProxyPath target)

/-- What the observer does about the attribute `key`, when it bears a URL. -/
def enforceObservedAttribute (el : Node) (key : Text) : Node :=
  let localKey := attrLocalName key
  let raw := el.attrs key
  if el.tag = "link" ∧ (localKey = "rel" ∨ localKey = "href") then
    env.enforceLinkPolicy el
  else if el.tag = "script" ∧ (localKey = "src" ∨ localKey = "href" ∨ localKey = "type") then
    env.enforceScript el
  else if isFrame el.tag ∧ localKey = "srcdoc" then env.enforceSrcdoc el
  else if !isURLBearing el.tag localKey then el
  else if localKey = "srcset" ∨ localKey = "imagesrcset" then
    match raw with
    | some list => if list.isEmpty then el else env.enforceSrcsetAttribute el key list
    | none => el
  else if raw = some inertURL then el
  else
    -- A missing attribute reads as `null`, and that as a string.
    let string := raw.getD "null"
    if shouldBlockURLAttribute el.tag localKey string || hasContextBlockedScheme env el.tag string then
      blockExecutableURL env el localKey string
    else match raw with
      | none => el
      | some raw => routeObserved env el key raw

/-! ## What is blocked -/

/-- The attributes whose `javascript:` URLs a browser executes. -/
def navigableAttributes : List (Text × Text) :=
  [("a", "href"), ("area", "href"), ("form", "action"), ("input", "formaction"),
    ("button", "formaction"), ("iframe", "src"), ("frame", "src"), ("embed", "src"),
    ("object", "data")]

/-- A browser executes the value `v` of the attribute. -/
def Executes (tag localKey v : Text) : Prop :=
  (tag, localKey) ∈ navigableAttributes ∧ IsJavascriptURL v ∧ v ≠ inertURL

instance (tag localKey v : Text) : Decidable (Executes tag localKey v) :=
  inferInstanceAs (Decidable (_ ∧ _ ∧ _))

/-- The value of the attribute `k` that a browser uses: none when there is an attribute of
    the local name, which takes precedence. -/
def kept (el : Node) (k : Text) : Option Text :=
  if attrLocalName k = jsLower k ∨ el.attrs (attrLocalName k) = none then el.attrs (jsLower k)
  else none

/-- An element `tag` that has become `el` executes no value kept for the attribute `k`. -/
def KeptInert (tag : Text) (el : Node) (k : Text) : Prop :=
  ∀ v ∈ kept el k, ¬ Executes tag (attrLocalName k) v

/-- The membrane takes the string, as a value of the attribute `key`, for executable. -/
def Recognised (el : Node) (key raw : Text) : Prop :=
  shouldBlockURLAttribute el.tag (attrLocalName key) raw

/-- The string begins, after white space, with `javascript:` as it stands. -/
def SpellsJavascript (raw : Text) : Prop := startsWithCI (jsTrim raw) "javascript:"

variable {s k : Text}

theorem head?_jsTrim_of_isJavascriptURL {c : Char} (hs : IsJavascriptURL s)
    (hc : (jsTrim s).head? = some c) : c.toLower = 'j' ∨ isC0OrSpace c := by
  obtain ⟨d, hd, hj⟩ := hs.head
  rw [jsTrim, head?_stripBoth] at hc
  clear hs
  induction s with
  | nil => cases hc
  | cons a s ih =>
    by_cases hw : isJsWhitespace a
    · by_cases h0 : isC0OrSpace a
      · rw [dropWhile_cons_of_pos hw] at hc
        rw [dropWhile_cons_of_pos h0] at hd
        exact ih hc hd
      · -- White space that the URL parser does not skip is no letter.
        rw [dropWhile_cons_of_neg h0, head?_cons, some.injEq] at hd
        have ha := not_isAsciiAlpha_of_isJsWhitespace hw
        rw [← isAsciiAlpha_toLower, hd, hj] at ha
        cases ha
    · rw [dropWhile_cons_of_neg hw, head?_cons, some.injEq] at hc
      subst hc
      by_cases h0 : isC0OrSpace a
      · exact .inr h0
      · rw [dropWhile_cons_of_neg h0, head?_cons, some.injEq] at hd
        exact .inl (hd ▸ hj)

theorem recognised_iff (hs : IsJavascriptURL s) (el : Node) (key : Text) :
    Recognised el key s ↔ SpellsJavascript s := by
  have hother {p : Char} {ps : Text} (hp : startsWithCI (jsTrim s) (p :: ps))
      (hl : isAsciiAlpha p.toLower) (hne : p.toLower ≠ 'j') : False := by
    obtain ⟨c, t, ht, hc, -⟩ := exists_cons_of_startsWithCI hp
    rcases head?_jsTrim_of_isJavascriptURL hs (by rw [ht, head?_cons]) with h | h
    · exact hne (hc.symm.trans h)
    · rw [← hc, isAsciiAlpha_toLower] at hl
      simp only [isAsciiAlpha, or_eq_true, and_eq_true, decide_eq_true_eq] at hl
      simp only [isC0OrSpace, decide_eq_true_eq] at h
      omega
  rw [Recognised, shouldBlockURLAttribute, SpellsJavascript]
  split
  · simp only [hasExecutableURLScheme, hasScheme, any_cons, any_nil, Bool.or_false, or_eq_true]
    refine ⟨fun h => h.resolve_right ?_, .inl⟩
    rintro (h | h)
    · exact hother (p := 'd') h (by decide) (by decide)
    · exact hother (p := 'v') h (by decide) (by decide)
  · simp only [hasDangerousURLScheme, hasScheme, any_cons, any_nil, Bool.or_false, or_eq_true]
    exact ⟨fun h => h.resolve_right fun h => hother (p := 'v') h (by decide) (by decide), .inl⟩

theorem navigableAttributes_spec {tag key : Text} (h : (tag, key) ∈ navigableAttributes) :
    tag ≠ "link" ∧ tag ≠ "script" ∧ isURLBearing tag key ∧ key ≠ "srcset" ∧
      key ≠ "imagesrcset" ∧ key ≠ "srcdoc" := by
  have hall : ∀ p ∈ navigableAttributes, p.1 ≠ "link" ∧ p.1 ≠ "script" ∧
      isURLBearing p.1 p.2 ∧ p.2 ≠ "srcset" ∧ p.2 ≠ "imagesrcset" ∧
      p.2 ≠ "srcdoc" := by decide
  exact hall _ h

variable {el : Node}

theorem attrs_blockExecutableURL {key : Text}
    (hnav : (el.tag, key) ∈ navigableAttributes) (raw : Text) :
    ∃ v, (blockExecutableURL env el key raw).attrs key = some v ∧
      (v = inertURL ∨ ¬ IsJavascriptURL v) := by
  have hscript : el.tag ≠ "script" := (navigableAttributes_spec hnav).2.1
  have hvalue : ¬ IsJavascriptURL (blockedURLValue el.tag key) := by
    rw [blockedURLValue]
    split
    · decide
    · split <;> decide
  simp only [blockExecutableURL, if_neg (fun h : _ ∧ _ => hscript h.1)]
  split
  · exact ⟨inertURL, Node.attrs_set_self .., .inl rfl⟩
  · split
    · next hframe =>
      refine ⟨_, ?_, .inr hvalue⟩
      rw [hframe.1, env.instrumentIframe_src, ← hframe.1, Node.attrs_set_self]
    · exact ⟨_, Node.attrs_set_self .., .inr hvalue⟩

theorem setAttribute_eq_block
    (hnav : (el.tag, attrLocalName k) ∈ navigableAttributes) (hspells : SpellsJavascript s)
    (hrec : Recognised el k s) :
    setAttribute env el k s = blockExecutableURL env el (attrLocalName k) s := by
  obtain ⟨hlink, hscript, hbearing, hset, himg, -⟩ := navigableAttributes_spec hnav
  have hhash : s.head? ≠ some '#' := by
    intro h
    obtain ⟨t, rfl⟩ := head?_eq_some_iff.1 h
    obtain ⟨c, u, hu, hc, -⟩ := exists_cons_of_startsWithCI (p := 'j') hspells
    have hhead := head?_stripBoth isJsWhitespace ('#' :: t)
    rw [← jsTrim, hu, dropWhile_cons_of_neg (by decide), head?_cons, head?_cons,
      some.injEq] at hhead
    subst hhead
    exact absurd hc (by decide)
  simp only [setAttribute, if_neg (fun h : _ ∧ _ => hlink h.1), if_neg (fun h : _ ∧ _ => hscript h.1),
    hbearing, Bool.not_true, if_neg Bool.false_ne_true,
    if_neg (fun h : _ ∨ _ => h.elim hset himg), if_neg hhash]
  rw [show shouldBlockURLAttribute el.tag (attrLocalName k) s from hrec, Bool.true_or, if_pos rfl]

theorem enforceObservedAttribute_recognised (hs : el.attrs k = some s)
    (hnav : (el.tag, attrLocalName k) ∈ navigableAttributes) (hrec : Recognised el k s) :
    enforceObservedAttribute env el k =
      if s = inertURL then el else blockExecutableURL env el (attrLocalName k) s := by
  obtain ⟨hlink, hscript, hbearing, hset, himg, hdoc⟩ := navigableAttributes_spec hnav
  simp only [enforceObservedAttribute, if_neg (fun h : _ ∧ _ => hlink h.1),
    if_neg (fun h : _ ∧ _ => hscript h.1), if_neg (fun h : _ ∧ _ => hdoc h.2), hbearing,
    Bool.not_true, if_neg Bool.false_ne_true, if_neg (fun h : _ ∨ _ => h.elim hset himg), hs,
    some.injEq, getD_some]
  rw [show shouldBlockURLAttribute el.tag (attrLocalName k) s from hrec, Bool.true_or, if_pos rfl]

theorem keptInert_blockExecutableURL
    (hnav : (el.tag, attrLocalName k) ∈ navigableAttributes) (raw : Text) :
    KeptInert el.tag (blockExecutableURL env el (attrLocalName k) raw) k := by
  obtain ⟨v, hv, hinert⟩ := attrs_blockExecutableURL env hnav raw
  intro w hw hexec
  rw [kept, hv] at hw
  split at hw
  · next h =>
    -- The value written counts, since it was written under the attribute's own name.
    rw [← h.resolve_right (some_ne_none v), hv, mem_some_iff] at hw
    subst hw
    rcases hinert with rfl | hjs
    · exact hexec.2.2 rfl
    · exact hjs hexec.2.1
  · cases hw

theorem keptInert_of_not_navigable {tag : Text} (h : (tag, attrLocalName k) ∉ navigableAttributes)
    (el : Node) : KeptInert tag el k :=
  fun _ _ hexec => h hexec.1

/-- Of the strings that the URL parser reads as `javascript:` URLs, the membrane recognises
    exactly those that begin, after white space, with `javascript:` as it stands, and those
    it makes inert: in its `setAttribute` hook, and in its observer. -/
theorem javascript_url_blocked_iff (el : Node) (k s : Text) (hs : IsJavascriptURL s) :
    (Recognised el k s ∧ KeptInert el.tag (setAttribute env el k s) k ↔ SpellsJavascript s) ∧
    (jsLower k = k → el.attrs k = some s →
      (Recognised el k s ∧ KeptInert el.tag (enforceObservedAttribute env el k) k ↔
        SpellsJavascript s)) := by
  have hrec := recognised_iff hs el k
  refine ⟨⟨fun h => hrec.1 h.1, fun h => ⟨hrec.2 h, ?_⟩⟩, fun hk hattr =>
    ⟨fun h => hrec.1 h.1, fun h => ⟨hrec.2 h, ?_⟩⟩⟩
  · by_cases hnav : (el.tag, attrLocalName k) ∈ navigableAttributes
    · rw [setAttribute_eq_block env hnav h (hrec.2 h)]
      exact keptInert_blockExecutableURL env hnav s
    · exact keptInert_of_not_navigable hnav _
  by_cases hnav : (el.tag, attrLocalName k) ∈ navigableAttributes
  · rw [enforceObservedAttribute_recognised env hattr hnav (hrec.2 h)]
    split_ifs with hinert
    · intro v hv hexec
      rw [kept, hk, hattr, hinert] at hv
      split at hv
      · exact hexec.2.2 (mem_some_iff.1 hv).symm
      · cases hv
    · exact keptInert_blockExecutableURL env hnav s
  · exact keptInert_of_not_navigable hnav _

/-- An environment in which no string has a target and nothing is routed. -/
def idleEnv : Env where
  proxyOrigin := "http://p.test"
  targetURLForElement _ _ := none
  proxyViaURL := id
  subresourceProxyPath := id
  setScriptSource el _ := el
  routeBlobScript _ _ := none
  isRewrittenBlob _ := false
  routeFrameSrc el _ _ _ := el
  cancelFrameRoute := id
  instrumentIframe := id
  instrumentIframe_src _ := rfl
  setSubresourceAttribute el _ _ := el
  upgradeSWLessURL el _ _ := el
  enforceSrcsetAttribute el _ _ := el
  enforceLinkPolicy := id
  blockedLink _ _ := none
  iconLink _ _ := none
  enforceScript := id
  enforceSrcdoc := id
  isSiteFrameAddress _ := false
  swLessPixel := "data:image/png,"
  swLessError := "/zp/error/"
  inertFrameDocument _ := false
  parkFrameSrc := id

def bareNode (tag : Text) : Node := ⟨tag, fun _ => none, none, fun _ => none, none⟩

/-- A `javascript:` URL on a link, spelled out after white space. -/
theorem javascript_url_blocked_link : let s := " JavaScript:alert(1)".toList
    IsJavascriptURL s ∧ Recognised (bareNode "a") "href" s ∧
      KeptInert "a" (setAttribute idleEnv (bareNode "a") "href" s)
        "href" := by
  intro s
  have hs : IsJavascriptURL s := by decide
  have hspells : SpellsJavascript s := by unfold SpellsJavascript; decide
  exact ⟨hs, ((javascript_url_blocked_iff idleEnv (bareNode "a") "href" s hs).1.2
    hspells)⟩

/-- A newline in the scheme, which the URL parser drops: the membrane does not recognise the
    URL, and the link keeps it. -/
theorem javascript_url_newline_kept : let s := "java\nscript:alert(1)".toList
    let el := setAttribute idleEnv (bareNode "a") "href" s
    IsJavascriptURL s ∧ kept el "href" = some s ∧
      Executes "a" "href".toList s ∧
      ¬ Recognised (bareNode "a".toList) "href".toList s ∧
      kept (enforceObservedAttribute idleEnv el "href") "href" = some s := by
  unfold Recognised
  decide

end ZeroProxy.Membrane.UrlAttribute

namespace ZeroProxy.Membrane.UrlCache

open Bytes Option Program Text UrlAttribute

/-! ## The classifier -/

/-- `UrlClass`. -/
inductive UrlClass
  | invalid
  | http
  | ws
  | blob
  | data
  | javaScript
  | vbScript
  | aboutBlank
  | aboutOther
  | relative
  | other
  deriving DecidableEq

/-- The characters that `ascii_trim` strips. -/
def isTrimmed (c : Char) : Bool := [' ', '\t', '\n', '\r', '\x0c'].contains c

/-- The class of a scheme that is followed by `rest`. -/
def classOfScheme (scheme rest : Text) : UrlClass :=
  if eqCI scheme "ws" || eqCI scheme "wss" then .ws
  else if eqCI scheme "http" || eqCI scheme "https" then .http
  else if eqCI scheme "blob" then .blob
  else if eqCI scheme "data" then .data
  else if eqCI scheme "about" then
    if eqCI rest "blank" then .aboutBlank else .aboutOther
  else if eqCI scheme "vbscript" then .vbScript
  else if eqCI scheme "javascript" then .javaScript
  else .other

def classifyScheme (input : List UInt8) : UrlClass :=
  let trimmed := stripBoth isTrimmed (input.map asciiChar)
  if trimmed.isEmpty || 8192 < trimmed.length then .invalid
  else
    let scheme := trimmed.takeWhile (· != ':')
    match trimmed.dropWhile (· != ':') with
    | [] => .relative
    | _ :: rest =>
      if scheme.head?.all isAsciiAlpha && scheme.all Url.isSchemeChar then classOfScheme scheme rest
      else .relative

/-- The characters of a text whose UTF-8 fits into `n` bytes: `TextEncoder.encodeInto`. -/
def encodeInto : Nat → Text → List UInt8
  | _, [] => []
  | n, c :: s =>
    let b := String.utf8EncodeChar c
    if b.length ≤ n then b ++ encodeInto (n - b.length) s else []

/-- The bytes that are classified. -/
def probe (s : Text) : List UInt8 :=
  if (s.take 16).all (·.toNat < 0x80) then (s.take 16).map fun c => UInt8.ofNat c.toNat
  else encodeInto 16 s

def classifySchemeOnly (s : Text) : UrlClass :=
  if s.isEmpty || (probe s).isEmpty || 256 < (probe s).length then .invalid
  else classifyScheme (probe s)

def isRefused (s : Text) : Bool := classifySchemeOnly s != .http && classifySchemeOnly s != .ws

/-! ## The caches -/

/-- The cache of the batch, and the last string and target of every element. -/
structure Caches where
  tick : Text → Option (Option Text)
  element : Nat → Option (Text × Text)

/-- `targetURLIfHTTP(raw)`, or `targetURLForElement(el, raw)`. -/
structure Question where
  element : Option Nat
  raw : Text

/-- What the element has to the question. -/
def hit (element : Nat → Option (Text × Text)) (q : Question) : Option Text :=
  ((q.element.bind element).filter fun e => e.1 == q.raw).map (·.2)

/-- The target of an element is kept. -/
def keep (element : Nat → Option (Text × Text)) (q : Question) (a : Option Text) :
    Nat → Option (Text × Text) :=
  match q.element, a with
  | some i, some target => Function.update element i (some (q.raw, target))
  | _, _ => element

/-- The element is asked first, then the batch; what the element does not have goes into both. -/
def memory : Memory Question (Option Text) Caches where
  lookup m q := ((hit m.element q).map some).or (m.tick q.raw)
  record m q a :=
    if (hit m.element q).isSome then m
    else
      { tick := if (m.tick q.raw).isSome then m.tick else Function.update m.tick q.raw (some a)
        element := keep m.element q a }

/-! ## The batch -/

/-- A record: an attribute of an element has changed, or nodes were added. -/
inductive Record
  | attributes (target : Nat) (attributeName : Text)
  | childList (addedNodes : List Nat)

abbrev Dom := Nat → Node

def Record.string? (dom : Dom) : Record → Option Text
  | attributes i name => ((dom i).attrs name).filter (!·.isEmpty)
  | childList _ => none

def probeRecord (dom : Dom) (tick : Text → Option (Option Text)) (r : Record) :
    Text → Option (Option Text) :=
  match r.string? dom with
  | none => tick
  | some raw =>
    if (tick raw).isSome then tick
    else if isRefused raw then Function.update tick raw (some none)
    else tick

/-- The cache of a batch before it is handled; `rt` says that the classifier is loaded. -/
def prefill (rt : Bool) (dom : Dom) (records : List Record) : Text → Option (Option Text) :=
  if rt then records.foldl (probeRecord dom) fun _ => none else fun _ => none

abbrev Handling := Program Question (Option Text) Text

variable (env : Env)

def answering (a : Option Text) : Env := { env with targetURLForElement := fun _ _ => a }

/-- The attributes that other parts of the membrane handle: policies of links and `<meta>` tags,
    `ping`, sandboxes, scripts, digests, frames with markup, and lists of images. -/
def isElsewhere (tag localKey : Text) : Bool :=
  decide (tag = "link" ∧ (localKey = "rel" ∨ localKey = "href")) ||
    decide (tag = "meta" ∧ (localKey = "http-equiv" ∨ localKey = "content")) ||
    decide (localKey = "ping" ∧ (tag = "a" ∨ tag = "area")) ||
    decide (localKey = "sandbox" ∧ isFrame tag) ||
    decide (tag = "script" ∧ (localKey = "src" ∨ localKey = "href" ∨ localKey = "type")) ||
    decide (localKey = "integrity" ∧ (tag = "script" ∨ tag = "link")) ||
    decide (isFrame tag ∧ localKey = "srcdoc") ||
    (isURLBearing tag localKey &&
      decide (localKey = "srcset" ∨ localKey = "imagesrcset"))

/-- The string that the observer asks the target of, if it comes to that. -/
def askedString (el : Node) (key : Text) : Option Text :=
  let localKey := attrLocalName key
  (el.attrs key).filter fun raw =>
    isURLBearing el.tag localKey && raw != inertURL &&
      !(shouldBlockURLAttribute el.tag localKey raw || hasContextBlockedScheme env el.tag raw) &&
      !raw.isEmpty && !env.proxyOrigin.isPrefixOf raw &&
      !decide (isFrame el.tag ∧ localKey = "src" ∧ env.isSiteFrameAddress raw) &&
      !startsWithCI raw "blob:" && raw != env.swLessError && raw != env.swLessPixel

/-- `enforceObservedAttribute` of the element `i`, for an attribute that is not handled
    elsewhere. -/
def observe (i : Nat) (el : Node) (key : Text) : Handling Node :=
  if el.tag = "base" ∧ attrLocalName key = "href" then
    -- `syncBaseElement`: a base URL that is not empty is taken over.
    match (el.attrs "href").filter (!·.isEmpty) with
    | some href => .tell href (.done el)
    | none => .done el
  else match askedString env el key with
    | some raw => .ask ⟨some i, raw⟩ fun a => .done (enforceObservedAttribute (answering env a) el key)
    | none => .done (enforceObservedAttribute (answering env none) el key)

/-! ## Handling a batch -/

/-- What other parts of the membrane ask and do: about an attribute that is theirs, and about
    nodes that were added. -/
structure Parts where
  enforce : Nat → Text → Dom → Handling Dom
  enforceAdded : List Nat → Dom → Handling Dom

variable (parts : Parts)

def handleRecord (dom : Dom) : Record → Handling Dom
  | .attributes i name =>
    let key := jsLower name
    if isElsewhere (dom i).tag (attrLocalName key) then parts.enforce i key dom
    else (observe env i (dom i) key).andThen fun el => .done (Function.update dom i el)
  | .childList nodes => parts.enforceAdded nodes dom

/-- The second loop. -/
def handleBatch (dom : Dom) : List Record → Handling Dom
  | [] => .done dom
  | r :: records => (handleRecord env parts dom r).andThen fun dom => handleBatch dom records

/-- Targets are resolved against the base URL, and a base URL that resolves takes its place. -/
def world (targetURL : Text → Text → Option Text) : Program.World Question (Option Text) Text Text where
  answer base q := targetURL q.raw base
  change href base := (targetURL href base).getD base

/-! ## What the caches hold -/

theorem probeRecord_apply (dom : Dom) (tick : Text → Option (Option Text)) (r : Record) (raw : Text) :
    probeRecord dom tick r raw =
      (tick raw).or (if isRefused raw && r.string? dom == some raw then some none else none) := by
  rw [probeRecord]
  cases hr : r.string? dom with
  | none => simp
  | some s =>
    by_cases hs : s = raw
    · subst hs
      cases ht : tick s with
      | some a => simp [ht]
      | none =>
        cases hc : isRefused s with
        | true | false => simp [ht, hc]
    have hne : (some s == some raw) = false := by
      rw [beq_eq_false_iff_ne]
      exact fun h => hs (some.inj h)
    rw [hne, Bool.and_false, if_neg Bool.false_ne_true, or_none]
    dsimp only
    split
    · rfl
    · split
      · exact Function.update_of_ne (fun h => hs h.symm) _ _
      · rfl

theorem prefill_eq (rt : Bool) (dom : Dom) (records : List Record) (raw : Text) :
    prefill rt dom records raw =
      if rt && isRefused raw && records.any (fun r => r.string? dom == some raw) then some none
      else none := by
  have hfold (tick : Text → Option (Option Text)) :
      records.foldl (probeRecord dom) tick raw = (tick raw).or
        (if isRefused raw && records.any (fun r => r.string? dom == some raw) then some none
          else none) := by
    induction records generalizing tick with
    | nil => simp
    | cons r records ih =>
      rw [List.foldl_cons, ih, probeRecord_apply, Option.or_assoc, List.any_cons]
      congr 1
      cases isRefused raw <;> cases r.string? dom == some raw <;> simp
  rw [prefill]
  cases rt with
  | false => rfl
  | true => exact (hfold _).trans (none_or)

abbrev Answer := Asked Question (Option Text) Text

/-- What the elements have after the answers in `l`. -/
def entries (element : Nat → Option (Text × Text)) (l : List Answer) :
    Nat → Option (Text × Text) :=
  l.foldl (fun e x => if (hit e x.question).isSome then e else keep e x.question x.answer) element

/-- The answers in `l` that no element had. -/
def misses : (Nat → Option (Text × Text)) → List Answer → List Answer
  | _, [] => []
  | e, x :: l =>
    if (hit e x.question).isSome then misses e l else x :: misses (keep e x.question x.answer) l

/-- The first answer in `l` to the string that no element had. -/
def firstMiss (element : Nat → Option (Text × Text)) (l : List Answer) (raw : Text) :
    Option (Option Text) :=
  ((misses element l).find? (·.question.raw == raw)).map (·.answer)

theorem firstMiss_cons (element : Nat → Option (Text × Text)) (x : Answer) (l : List Answer)
    (raw : Text) :
    firstMiss element (x :: l) raw =
      if (hit element x.question).isSome then firstMiss element l raw
      else if x.question.raw = raw then some x.answer
      else firstMiss (keep element x.question x.answer) l raw := by
  rw [firstMiss, misses]
  split
  · rfl
  rw [List.find?_cons]
  by_cases hraw : x.question.raw = raw
  · rw [beq_iff_eq.2 hraw, if_pos hraw]
    rfl
  · rw [beq_eq_false_iff_ne.2 hraw, if_neg hraw]
    rfl

theorem after_memory (m : Caches) (l : List Answer) :
    (after memory m l).element = entries m.element l ∧
      ∀ raw, (after memory m l).tick raw = (m.tick raw).or (firstMiss m.element l raw) := by
  induction l generalizing m with
  | nil => exact ⟨rfl, fun raw => (or_none).symm⟩
  | cons x l ih =>
    obtain ⟨helement, htick⟩ := ih (memory.record m x.question x.answer)
    rw [after, List.foldl_cons, ← after, entries, List.foldl_cons, ← entries]
    by_cases hhit : (hit m.element x.question).isSome
    · have hrecord : memory.record m x.question x.answer = m := if_pos hhit
      rw [hrecord] at helement htick ⊢
      rw [if_pos hhit]
      refine ⟨helement, fun raw => ?_⟩
      rw [htick, firstMiss_cons, if_pos hhit]
    have hrecord : memory.record m x.question x.answer = Caches.mk
        (if (m.tick x.question.raw).isSome then m.tick
          else Function.update m.tick x.question.raw (some x.answer))
        (keep m.element x.question x.answer) := if_neg hhit
    rw [hrecord] at helement htick ⊢
    rw [if_neg hhit]
    refine ⟨helement, fun raw => ?_⟩
    rw [htick, firstMiss_cons, if_neg hhit]
    dsimp only
    -- The answer goes into the cache of the batch, unless that has one to the string.
    by_cases hraw : x.question.raw = raw
    · subst hraw
      cases ht : m.tick x.question.raw with
      | some a => simp [ht]
      | none => simp
    · split
      · rfl
      · rw [Function.update_of_ne (fun h => hraw h.symm)]

/-- A batch is handled with the answers of `targetURL` exactly if, in the run that has no cache,
    every string that is met gets the target that its element keeps for it; or else is refused,
    if the classifier refuses a record's attribute of that value; or else gets the target that it
    got where the batch first asked for it. -/
theorem cached_faithful_iff (targetURL : Text → Text → Option Text) (env : Env) (parts : Parts)
    (rt : Bool) (dom : Dom) (records : List Record) (element : Nat → Option (Text × Text))
    (base : Text) :
    Faithful (world targetURL) (remembered (world targetURL) memory
        ⟨prefill rt dom records, element⟩ base (handleBatch env parts dom records)).1 ↔
      ∀ before x rest,
        (fresh (world targetURL) base (handleBatch env parts dom records)).1 = before ++ x :: rest →
        (∀ target, hit (entries element before) x.question = some target → x.answer = some target) ∧
        (hit (entries element before) x.question = none → if rt && isRefused x.question.raw &&
              records.any (fun r => r.string? dom == some x.question.raw) then x.answer = none
          else ∀ a, firstMiss element before x.question.raw = some a → x.answer = a) := by
  rw [remembered_faithful_iff, consistent_iff]
  refine forall_congr' fun before => forall_congr' fun x => forall_congr' fun rest =>
    imp_congr_right fun _ => ?_
  obtain ⟨helement, htick⟩ := after_memory ⟨prefill rt dom records, element⟩ before
  have hlookup : memory.lookup (after memory ⟨prefill rt dom records, element⟩ before) x.question =
      ((hit (entries element before) x.question).map some).or
        ((prefill rt dom records x.question.raw).or (firstMiss element before x.question.raw)) := by
    change ((hit _ x.question).map some).or (_) = _
    rw [helement, htick]
  rw [hlookup, prefill_eq]
  cases hit (entries element before) x.question with
  | some target =>
    simp only [map_some, some_or, some.injEq, forall_eq', reduceCtorEq,
      false_imp_iff, and_true]
    exact eq_comm
  | none =>
    simp only [map_none, none_or, reduceCtorEq, false_imp_iff, forall_const, true_and]
    split
    · simp only [some_or, some.injEq, forall_eq']
      exact eq_comm
    · exact forall_congr' fun a => imp_congr_right fun _ => eq_comm

/-! ## A relative address -/

def writingEnv : Env :=
  { idleEnv with
    subresourceProxyPath := fun target => "http://p.test/zp/api/v2/fetch?url=" ++ target
    setSubresourceAttribute := Node.set }

def idleParts : Parts := ⟨fun _ _ dom => .done dom, fun _ dom => .done dom⟩

/-- Strings with a scheme are targets; others are resolved in the directory of the base URL. -/
def inDirectory (raw base : Text) : Option Text :=
  some (if startsWithCI raw "https:" then raw else base ++ raw)

def imageDom : Dom := fun _ => (bareNode "img").set "src" "a.png"

def sourceRecord : List Record := [.attributes 0 "src"]

/-- The relative address is refused, and the image keeps it; without the cache it has a target, and
    the image gets the address of the proxy. -/
theorem relative_source_refused :
    let handling := handleBatch writingEnv idleParts imageDom sourceRecord
    let base := "https://t.test/".toList
    let cached := remembered (world inDirectory) memory
      ⟨prefill true imageDom sourceRecord, fun _ => none⟩ base handling
    let direct := fresh (world inDirectory) base handling
    cached.1.map (·.answer) = [none] ∧
      (cached.2 0).attrs "src" = some "a.png".toList ∧
      direct.1.map (·.answer) = [some "https://t.test/a.png".toList] ∧
      (direct.2 0).attrs "src" =
        some "http://p.test/zp/api/v2/fetch?url=https://t.test/a.png".toList ∧
      ¬ Faithful (world inDirectory) cached.1 := by
  intro handling base cached direct
  have hcached : cached.1.map (·.answer) = [none] := by decide
  refine ⟨hcached, by decide, by decide, by decide, fun h => ?_⟩
  have hasked : cached.1.all fun x => (x.answer).isSome := by
    rw [List.all_eq_true]
    intro x hx
    rw [h x hx]
    rfl
  have hnone : (cached.1.map (·.answer)).all isSome = false := by rw [hcached]; rfl
  rw [List.all_map] at hnone
  exact absurd (hasked.symm.trans hnone) (by decide)

end ZeroProxy.Membrane.UrlCache
