import ZeroProxy.Htmltx.Url
import ZeroProxy.Rewriter.Syntax

/-!
# The attribute pass

The first of the transformer's two passes visits every start tag of the document in
order. It moves out of the browser's reach what must not act before the page's own
hooks run (frame sources, `ping`, integrity digests, policies in `<meta>`), rewrites
the URLs of the remaining attributes to addresses of the proxy, and rewrites the code
of `javascript:` URLs and event handlers.
-/

namespace ZeroProxy.Htmltx

open List

/-! ## Start tags

A handler reads an attribute's text as it stands in the markup, references and all. An attribute
that no handler writes is emitted as it came; in one that a handler writes, only the double quote
is escaped. -/

/-- An attribute of a start tag. -/
structure Attr where
  /-- The name, in lower case. -/
  name : Text
  /-- The text, as it stands in the markup or as a handler wrote it. -/
  value : Text
  /-- A handler wrote the text. -/
  written : Bool
  deriving DecidableEq

/-- A start tag. -/
structure Element where
  /-- The tag name, in lower case. -/
  tag : Text
  /-- The attributes, in order. -/
  attrs : List Attr
  deriving DecidableEq

def escapeDoubleQuotes (s : Text) : Text := s.flatMap fun c => if c = '"' then "&quot;" else [c]

theorem escapeDoubleQuotes_cons {c : Char} (hc : c ≠ '"') (s : Text) :
    escapeDoubleQuotes (c :: s) = c :: escapeDoubleQuotes s := by
  rw [escapeDoubleQuotes, flatMap_cons, if_neg hc]
  rfl

theorem escapeDoubleQuotes_eq_self {s : Text} (h : '"' ∉ s) : escapeDoubleQuotes s = s := by
  induction s with
  | nil => rfl
  | cons c s ih =>
    rw [mem_cons, not_or] at h
    rw [escapeDoubleQuotes_cons (Ne.symm h.1), ih h.2]

def Attr.emit (a : Attr) : Text := if a.written then escapeDoubleQuotes a.value else a.value

/-- The list with the first attribute named `n` written, or added at its end. -/
def writeAttr (n v : Text) : List Attr → List Attr
  | [] => [⟨n, v, true⟩]
  | a :: l => if a.name = n then ⟨n, v, true⟩ :: l else a :: writeAttr n v l

/-- The list without the first attribute named `n`. -/
def eraseAttr (n : Text) : List Attr → List Attr
  | [] => []
  | a :: l => if a.name = n then l else a :: eraseAttr n l

namespace Element

variable (el : Element) (m n v : Text)

/-- The attributes named `n`. -/
def named : List Attr := el.attrs.filter (·.name = n)

/-- The first attribute named `n`. -/
def attr : Option Attr := (el.named n).head?

/-- The text of the attribute `n`. -/
def getAttribute : Option Text := (el.attr n).map Attr.value

/-- The start tag has an attribute `n`. -/
def hasAttribute : Bool := (el.attr n).isSome

/-- The start tag with the attribute `n` set to `v`. -/
def setAttribute : Element := { el with attrs := writeAttr n v el.attrs }

/-- The start tag without the attribute `n`. -/
def removeAttribute : Element := { el with attrs := eraseAttr n el.attrs }

/-- The text of the attribute `n` in the emitted markup. -/
def emitted : Option Text := (el.attr n).map Attr.emit

theorem mem_of_attr {a : Attr} (h : el.attr n = some a) : a ∈ el.attrs ∧ a.name = n := by
  have hmem := mem_of_mem_head? h
  rw [named, mem_filter, decide_eq_true_eq] at hmem
  exact hmem

@[simp] theorem attr_setAttribute : (el.setAttribute n v).attr n = some ⟨n, v, true⟩ := by
  obtain ⟨tag, attrs⟩ := el
  simp only [attr, named, setAttribute]
  induction attrs with
  | nil => simp [writeAttr]
  | cons a l ih =>
    rw [writeAttr]
    split
    · simp
    · next h => rw [filter_cons_of_neg (by simpa using h), ih]

variable {m n}

theorem named_setAttribute_of_ne (h : n ≠ m) : (el.setAttribute n v).named m = el.named m := by
  obtain ⟨tag, attrs⟩ := el
  simp only [named, setAttribute]
  induction attrs with
  | nil => simp [writeAttr, h]
  | cons a l ih =>
    rw [writeAttr]
    split
    · next ha => rw [filter_cons_of_neg (by simpa using h),
        filter_cons_of_neg (by simpa [ha] using h)]
    · rw [filter_cons, filter_cons, ih]

theorem named_removeAttribute_of_ne (h : n ≠ m) : (el.removeAttribute n).named m = el.named m := by
  obtain ⟨tag, attrs⟩ := el
  simp only [named, removeAttribute]
  induction attrs with
  | nil => rfl
  | cons a l ih =>
    rw [eraseAttr]
    split
    · next ha => rw [filter_cons_of_neg (by simpa [ha] using h)]
    · rw [filter_cons, filter_cons, ih]

theorem attr_setAttribute_of_ne (h : n ≠ m) : (el.setAttribute n v).attr m = el.attr m := by
  rw [attr, named_setAttribute_of_ne el v h, attr]

theorem attr_removeAttribute_of_ne (h : n ≠ m) : (el.removeAttribute n).attr m = el.attr m := by
  rw [attr, named_removeAttribute_of_ne el h, attr]

end Element

open Text Rewriter

/-! ## Lists of image candidates

A `srcset` attribute lists candidates: a URL, then a descriptor, then a comma. The
transformer rewrites the URLs and keeps every other character. -/

/-- A candidate: the separators before its URL, the URL, and the descriptor up to
    the next candidate. -/
structure SrcsetCandidate where
  /-- The separators before the URL. -/
  lead : Text
  url : Text
  /-- The descriptor. -/
  tail : Text
  deriving DecidableEq

/-- The first candidate of a text that is not empty, and what follows it. A URL is a run
    without white space, less the commas at its end. -/
def nextCandidate (s : Text) : SrcsetCandidate × Text :=
  let isSep := fun c => isAsciiWhitespace c || c == ','
  let rest := s.dropWhile isSep
  let url := (rest.takeWhile fun c => !isAsciiWhitespace c).rdropWhile (· == ',')
  let rest := rest.drop url.length
  (⟨s.takeWhile isSep, url, rest.takeWhile (· != ',')⟩, rest.dropWhile (· != ','))

/-- The candidates of the text `s`, of which there are at most `fuel`. -/
def splitCandidates : Nat → Text → List SrcsetCandidate
  | 0, _ => []
  | fuel + 1, s =>
    if s.isEmpty then []
    else (nextCandidate s).1 :: splitCandidates fuel (nextCandidate s).2

/-- The candidates of a `srcset` attribute; every one takes a character. -/
def splitSrcsetCandidates (raw : Text) : List SrcsetCandidate := splitCandidates raw.length raw

/-- The list `raw` with the proxy's address for every URL that has one; `none` when
    there is none. -/
def proxiedSrcset (raw proxyOrigin control targetUrl : Text) : Option Text :=
  let address := fun c : SrcsetCandidate => proxiedSubresourceUrl c.url proxyOrigin control targetUrl
  let cs := splitSrcsetCandidates raw
  if cs.any fun c => (address c).isSome then
    some (cs.flatMap fun c => c.lead ++ (address c).getD c.url ++ c.tail)
  else none

/-! ## The pass -/

/-- What the pass uses of other crates. -/
structure Deps where
  /-- The rewritten code of a script, or an error's text. -/
  rewriteScript : Text → RewriteOpts → Except Text Text
  /-- A style sheet with its URLs rewritten, given the base URL, the control prefix and
      the proxy's origin; `none` when it cannot be parsed. -/
  rewriteCss : Text → Text → Text → Text → Option Text
  /-- The part of a `<meta>` policy that the document may keep, given the source
      of the site frames. -/
  filterMetaCspWith : Text → Text → Text
  /-- The policy source that admits the proxy's site frames. -/
  siteFrameSource : Text → Text

/-- What the transformer is told of the document and of the proxy. -/
structure TransformOptions where
  /-- The URL of the document in the target site. -/
  targetUrl : Text
  /-- The proxy's origin. -/
  proxyOrigin : Text

def controlPrefix : Text := "/zp/"

/-- The names of the attributes that the proxy keeps for itself: `data-zp-` and `s`. -/
def zpAttr (s : Text) : Text := "data-zp-" ++ s

abbrev Visited := Element × List Text

variable (deps : Deps) (opts : TransformOptions)

/-! ## Attributes with a fixed treatment -/

/-- The base URL after a `<base>` tag. -/
def updateBase (el : Element) (base : Text) : Text := if el.tag = "base" then
    match el.getAttribute "href" with
    | some href =>
      let h := rustTrim href
      if h.isEmpty then base else (absoluteTargetUrl h opts.targetUrl).getD base
    | none => base
  else base

/-- The attribute `n` moved to the attribute `m`. -/
def moveAttribute (n m : Text) (el : Element) : Element :=
  match el.getAttribute n with
  | some v => (el.setAttribute m v).removeAttribute n
  | none => el

/-- Digests do not fit rewritten files. -/
def stripIntegrity (el : Element) : Element := if el.tag = "script" ∨ el.tag = "link" then
    moveAttribute "integrity" (zpAttr "integrity") el
  else el

/-- The equivalent header of a `<meta>` tag. -/
def httpEquiv (el : Element) : Text :=
  (rustTrim ((el.getAttribute "http-equiv").getD [])).map Char.toLower

/-- A policy or an origin trial in a `<meta>` tag. -/
def neutralizeMeta (el : Element) : Element := if el.tag ≠ "meta" then el
  else
    let equiv := httpEquiv el
    if equiv = "content-security-policy" ∨ equiv = "content-security-policy-report-only" then
      let content := decodeUrlHtmlEntities ((el.getAttribute "content").getD [])
      let el := el.setAttribute (zpAttr "blocked-http-equiv") equiv
      let el := el.setAttribute (zpAttr "blocked-content") content
      let filtered := deps.filterMetaCspWith content (deps.siteFrameSource opts.proxyOrigin)
      if filtered.isEmpty then
        (el.removeAttribute "http-equiv").removeAttribute "content"
      else el.setAttribute "content" filtered
    else if equiv = "origin-trial" then
      let content := (el.getAttribute "content").getD []
      let el := el.removeAttribute "http-equiv"
      let el := el.setAttribute (zpAttr "blocked-http-equiv") equiv
      let el := el.setAttribute (zpAttr "blocked-content") content
      el.removeAttribute "content"
    else el

/-- A frame's document, given by `srcdoc` or `src`, is left to the page's hooks. -/
def moveFrameSource (el : Element) : Element := if el.tag = "iframe" ∨ el.tag = "frame" then
    let el := moveAttribute "srcdoc" (zpAttr "srcdoc") el
    match el.getAttribute "src" with
    | some src =>
      let t := rustTrim src
      if t.isEmpty || startsWithAsciiCi t "about:" then el
      else (el.setAttribute (zpAttr "frame-src") src).removeAttribute "src"
    | none => el
  else el

/-- The `content` of a refreshing `<meta>` tag with its URL rewritten. -/
def proxiedMetaRefresh (content proxyOrigin control targetUrl : Text) : Option Text :=
  (find "url=" (content.map Char.toLower)).bind fun i =>
    let head := content.take i
    let raw := rustTrim (content.drop (i + 4))
    let quoted := fun q => raw.head? = some q ∧ raw.getLast? = some q ∧ 2 ≤ raw.length
    let raw := rustTrim (if quoted '"' ∨ quoted '\'' then raw.tail.dropLast else raw)
    if raw.isEmpty || startsWithAsciiCi raw "javascript:" then none
    else (absoluteTargetUrl raw targetUrl).bind fun absolute =>
      (proxiedNavigationUrl absolute proxyOrigin control).map fun next =>
        head ++ "url=" ++ next

/-- A refresh in a `<meta>` tag navigates through the proxy. -/
def rewriteRefresh (base : Text) (el : Element) : Element := if el.tag = "meta" ∧
      (el.getAttribute "http-equiv").any (fun v => eqCI (rustTrim v) "refresh") then
    match el.getAttribute "content" with
    | some content =>
      match proxiedMetaRefresh content opts.proxyOrigin controlPrefix base with
      | some next =>
        (el.setAttribute (zpAttr "target-url") content).setAttribute "content" next
      | none => el
    | none => el
  else el

/-- Links send no beacons. -/
def stripPing (el : Element) : Element := if el.tag = "a" ∨ el.tag = "area" then
    moveAttribute "ping" (zpAttr "blocked-ping") el
  else el

/-- What the pass does to a start tag before it visits its URLs and event handlers. -/
def prepareElement (base : Text) (el : Element) : Element :=
  stripPing (rewriteRefresh opts base (moveFrameSource (neutralizeMeta deps opts (stripIntegrity el))))

/-! ## URLs -/

/-- The attributes that hold URLs, or style declarations. -/
def urlAttributes : List Text := ["href", "xlink:href", "src", "action", "formaction", "srcset",
    "imagesrcset", "poster", "background", "data", "style"]

/-- `name` is that of an event handler. -/
def isOnHandler (name : Text) : Bool := "on".toList.isPrefixOf name && decide (2 < name.length)

/-- The attributes by which the browser loads a part of the page. -/
def subresourceAttributes : List (Text × Text) :=
  [("link", "href"), ("script", "src"), ("img", "src"), ("source", "src"), ("video", "src"),
    ("audio", "src"), ("track", "src"), ("embed", "src"), ("object", "data"), ("input", "src"),
    ("image", "src"), ("image", "href"), ("image", "xlink:href"), ("use", "href"),
    ("use", "xlink:href"), ("script", "href"), ("script", "xlink:href"), ("feimage", "href"),
    ("feimage", "xlink:href"), ("video", "poster"), ("body", "background"), ("table", "background"),
    ("td", "background"), ("th", "background"), ("tr", "background")]

def navigationAttributes : List (Text × Text) :=
  [("a", "href"), ("a", "xlink:href"), ("area", "href"), ("form", "action"),
    ("input", "formaction"), ("button", "formaction")]

def srcsetAttributes : List (Text × Text) := [("img", "srcset"), ("source", "srcset"),
    ("link", "imagesrcset")]

/-- The attribute that keeps the author's text of the attribute `name`. -/
def litAttribute (name : Text) : Text := zpAttr ("lit-" ++ name)

/-- The `type` of a module script. -/
def isModuleType (t : Text) : Bool := eqCI (stripBoth isAsciiWhitespace t) "module"

def iconRels : List Text := ["icon", "mask-icon", "apple-touch-icon",
    "apple-touch-icon-precomposed", "apple-touch-startup-image", "fluid-icon"]

def isIconLinkRel (rel : Text) : Bool :=
  (split (fun c => isAsciiWhitespace c || c == ',') rel).any fun t =>
    (t.map Char.toLower) ∈ iconRels

def hiddenIconHref : Text := "data:application/x-zeroproxy-icon,1"

def isModulePreload (rel : Text) : Bool :=
  (split isAsciiWhitespace rel).any (eqCI · "modulepreload")

def moduleFetch (el : Element) (name : Text) : Bool :=
  if (el.tag, name) = ("script".toList, "src".toList) then
    (el.getAttribute "type").any isModuleType
  else if (el.tag, name) = ("link".toList, "href".toList) then
    (el.getAttribute "rel").any isModulePreload
  else false

def subresourceAddress (base : Text) (el : Element) (name trimmed : Text) : Option Text :=
  let module := moduleFetch el name
  if el.tag = "script" ∧ name = "src" ∧ startsWithAsciiCi trimmed "data:" then
    proxiedDataScriptUrl trimmed opts.proxyOrigin module
  else if module then proxiedModuleScriptUrl trimmed base opts.proxyOrigin
  else proxiedSubresourceUrl trimmed opts.proxyOrigin controlPrefix base

/-- A style attribute: a list of declarations, rewritten as the body of a rule. -/
def rewriteStyle (base name decoded trimmed : Text) (el : Element) : Element :=
  match deps.rewriteCss ("a\x7b" ++ trimmed ++ "\x7d") base controlPrefix
      opts.proxyOrigin with
  | some code =>
    match ( stripPrefix "a\x7b" code).bind (stripSuffix "\x7d") with
    | some inner =>
      if inner ≠ trimmed then (el.setAttribute (litAttribute name) decoded).setAttribute name inner
      else el
    | none => el
  | none => el

/-- A list of image candidates. -/
def rewriteSrcset (base name decoded trimmed : Text) (el : Element) : Element :=
  match proxiedSrcset trimmed opts.proxyOrigin controlPrefix base with
  | some next => (el.setAttribute (litAttribute name) decoded).setAttribute name next
  | none => el

/-- A URL by which the browser loads a part of the page. -/
def rewriteSubresource (base name decoded trimmed : Text) (el : Element) : Element :=
  match subresourceAddress opts base el name trimmed with
  | some next =>
    let icon := decide (el.tag = "link" ∧ name = "href") &&
      (el.getAttribute "rel").any isIconLinkRel
    let el := el.setAttribute name (if icon then hiddenIconHref else next)
    let el := el.setAttribute (litAttribute name) decoded
    if el.tag = "script" ∨ el.tag = "link" then
      match absoluteTargetUrl trimmed base with
      | some abs => el.setAttribute (zpAttr "target-url") abs
      | none => el
    else el
  | none => el

def rewriteNavigation (base name decoded trimmed : Text) (el : Element) : Element :=
  match absoluteTargetUrl trimmed base with
  | some abs =>
    match proxiedNavigationUrl abs opts.proxyOrigin controlPrefix with
    | some next =>
      let el := el.setAttribute name next
      let el := el.setAttribute (zpAttr "target-url") abs
      el.setAttribute (litAttribute name) decoded
    | none => el
  | none => el

/-- A URL attribute whose text is no `javascript:` URL. -/
def rewriteUrl (base name decoded trimmed : Text) (el : Element) : Element :=
  if name = "style" then rewriteStyle deps opts base name decoded trimmed el
  else if (el.tag, name) ∈ srcsetAttributes then rewriteSrcset opts base name decoded trimmed el
  else if (el.tag, name) ∈ subresourceAttributes then
    rewriteSubresource opts base name decoded trimmed el
  else if (el.tag, name) ∈ navigationAttributes then
    rewriteNavigation opts base name decoded trimmed el
  else el

/-! ## Code -/

def inertJavascriptUrl : Text := "javascript:void(0)"

/-- The kind of element that runs a `javascript:` URL of the attribute `name`. -/
def jsurlKind (name : Text) : Text := if name = "href" then "anchor"
  else if name = "action" ∨ name = "formaction" then "form"
  else if name = "src" then "frame"
  else "other"

def handlerOpts : RewriteOpts := ⟨.eventHandler, opts.targetUrl, opts.proxyOrigin⟩

/-- A `javascript:` URL: its rewritten code is kept aside, and the attribute becomes
    inert. -/
def rewriteJavascriptUrl (name decoded trimmed : Text) (el : Element) : Visited :=
  let body := match findChar (· == ':') trimmed with
    | some i => trimmed.drop (i + 1)
    | none => []
  match deps.rewriteScript (percentDecode body) (handlerOpts opts) with
  | .ok code =>
    let el := el.setAttribute name inertJavascriptUrl
    let el := el.setAttribute (zpAttr "jsurl") code
    let el := el.setAttribute (zpAttr "jsurl-kind") (jsurlKind name)
    (el.setAttribute (litAttribute name) decoded, [])
  | .error e =>
    let el := el.setAttribute name inertJavascriptUrl
    (el.removeAttribute (zpAttr "jsurl"),
      ["javascript: URL rewrite failed for " ++ name ++ ": " ++ e])

/-- An event handler: its code is rewritten, or removed. -/
def rewriteHandler (name value : Text) (el : Element) : Visited :=
  match deps.rewriteScript value (handlerOpts opts) with
  | .ok code => (el.setAttribute name code, [])
  | .error e =>
    (el.removeAttribute name, ["event handler " ++ name ++ " rewrite failed: " ++ e])

/-! ## The pass -/

/-- What the pass does about one attribute of the start tag. -/
def visitAttr (base : Text) (el : Element) (name value : Text) : Visited :=
  if name ∈ urlAttributes then
    let decoded := decodeUrlHtmlEntities value
    let trimmed := rustTrimStart decoded
    if !startsWithAsciiCi trimmed "javascript:" then
      (rewriteUrl deps opts base name decoded trimmed el, [])
    else rewriteJavascriptUrl deps opts name decoded trimmed el
  else if isOnHandler name then rewriteHandler deps opts name value el
  else (el, [])

/-- What the pass does about the attributes in `l`, in order. -/
def visitAttrs (base : Text) : Element → List (Text × Text) → Visited
  | el, [] => (el, [])
  | el, (name, value) :: l =>
    let (el, ds) := visitAttr deps opts base el name value
    let (el, es) := visitAttrs base el l
    (el, ds ++ es)

/-- The attributes the pass visits, with their texts. -/
def attrsSnapshot (el : Element) : List (Text × Text) :=
  (el.attrs.filter fun a => decide (a.name ∈ urlAttributes) || isOnHandler a.name).map
    fun a => (a.name, a.value)

/-- What the pass does to a start tag, and the base URL for the tags that follow. -/
def visitElement (base : Text) (el : Element) : Visited × Text :=
  let base := updateBase opts el base
  let el := prepareElement deps opts base el
  (visitAttrs deps opts base el (attrsSnapshot el), base)

/-- The pass over start tags in document order, from the base URL `base`. -/
def visitElements : Text → List Element → List Element × List Text
  | _, [] => ([], [])
  | base, el :: els =>
    let ((el, ds), base) := visitElement deps opts base el
    let (els, es) := visitElements base els
    (el :: els, ds ++ es)

/-- The attribute pass over the start tags of a document. -/
def attrPass (els : List Element) : List Element × List Text :=
  visitElements deps opts opts.targetUrl els

end ZeroProxy.Htmltx
