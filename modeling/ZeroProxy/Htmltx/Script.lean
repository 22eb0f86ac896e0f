import ZeroProxy.Htmltx.Attributes

/-!
# The script pass

The second of the transformer's two passes replaces the content of inline scripts. What
it does depends on the text of the `type` attribute as it stands in the markup.
-/

namespace ZeroProxy.Html

open Text

/-! ## The type of a script element

How the HTML standard decides, from the values of `type` and `language`, whether a browser executes
a script, and as what. -/

/-- What a browser executes the content of a script element as. -/
inductive Execution where
  | classic
  | module
  deriving DecidableEq

def javascriptTypes : List Text := ["application/ecmascript", "application/javascript",
    "application/x-ecmascript", "application/x-javascript", "text/ecmascript", "text/javascript",
    "text/javascript1.0", "text/javascript1.1", "text/javascript1.2", "text/javascript1.3",
    "text/javascript1.4", "text/javascript1.5", "text/jscript", "text/livescript",
    "text/x-ecmascript", "text/x-javascript"]

/-- The string that the values of `type` and `language` determine. -/
def typeString (type language : Option Text) : Text :=
  match type, language with
  | some [], _ => "text/javascript"
  | some t, _ => stripBoth isAsciiWhitespace t
  | none, none => "text/javascript"
  | none, some [] => "text/javascript"
  | none, some l => "text/" ++ l

/-- What a browser executes the content as, if it does. -/
def executedAs (type language : Option Text) : Option Execution :=
  let s := typeString type language
  if javascriptTypes.any (eqCI s) then some .classic
  else if eqCI s "module" then some .module
  else none

theorem exists_of_executedAs {t : Text} {language : Option Text} {k : Execution} (ht : t ≠ [])
    (h : executedAs (some t) language = some k) :
    ∃ m ∈ "module".toList :: javascriptTypes,
      eqCI (stripBoth isAsciiWhitespace t) m ∧ (k = .module ↔ m = "module") := by
  obtain ⟨c, u, rfl⟩ := List.exists_cons_of_ne_nil ht
  have hs : typeString (some (c :: u)) language = stripBoth isAsciiWhitespace (c :: u) := rfl
  rw [executedAs, hs] at h
  by_cases hany : javascriptTypes.any (eqCI (stripBoth isAsciiWhitespace (c :: u)))
  · rw [if_pos hany] at h
    obtain rfl := Option.some.inj h
    obtain ⟨m, hm, he⟩ := List.any_eq_true.1 hany
    have hall : ∀ m ∈ javascriptTypes, m ≠ "module" := by decide
    exact ⟨m, List.mem_cons_of_mem _ hm, he, (by cases ·), fun hk => absurd hk (hall m hm)⟩
  rw [if_neg hany] at h
  split at h
  · next he =>
    obtain rfl := Option.some.inj h
    exact ⟨"module", List.mem_cons_self, he, fun _ => rfl, fun _ => rfl⟩
  · cases h

end ZeroProxy.Html

namespace ZeroProxy.Htmltx

open Html List Option Rewriter Text

/-- What the pass uses of other functions. -/
structure ScriptDeps where
  /-- The rewritten code of a script, or an error's text. -/
  rewriteScript : Text → RewriteOpts → Except Text Text
  /-- An import map with its URLs rewritten, given the target URL and the proxy's origin;
      `none` when nothing changes. -/
  rewriteImportmapJson : Text → Text → Text → Option Text
  /-- Speculation rules with their URLs rewritten, likewise. -/
  rewriteSpeculationrulesJson : Text → Text → Text → Option Text

/-- What an inline script element contains: code, or JSON. -/
inductive InlineKind where
  | script (kind : ScriptKind)
  | importmap
  | speculationrules
  deriving DecidableEq

/-- The types of a script that the pass rewrites. -/
abbrev passTypes : List Text :=
  ["", "text/javascript", "application/javascript", "application/ecmascript", "text/ecmascript",
    "module"]

def isJavascriptType (t : Text) : Bool :=
  rustTrim (t.map Char.toLower) ∈ passTypes

/-- What the pass takes the content of a script element for. -/
def inlineKind (el : Element) : Option InlineKind := if el.hasAttribute "src" then none
  else match el.getAttribute "type" with
    | some t =>
      if isModuleType t then some (.script .module)
      else if eqCI (rustTrim t) "importmap" then some .importmap
      else if eqCI (rustTrim t) "speculationrules" then some .speculationrules
      else if !t.isEmpty && !isJavascriptType t then none
      else some (.script .classic)
    | none => some (.script .classic)

/-- A character of a script as it stands in the payload, a string literal. -/
def payloadChar (c : Char) : Text := if c = '\\' then "\\\\"
  else if c = '"' then "\\\""
  else if c = '\n' then "\\n"
  else if c = '\r' then "\\r"
  else if c = '\t' then "\\t"
  else if c = '\x08' then "\\b"
  else if c = '\x0c' then "\\f"
  else if c = '<' then "\\u003c"
  else if c = '\u2028' then "\\u2028"
  else if c = '\u2029' then "\\u2029"
  else if c.toNat < 0x20 then
    "\\u00" ++ [(hexDigit (c.toNat / 16)).toLower, (hexDigit (c.toNat % 16)).toLower]
  else [c]

/-- The script `src` as a string literal. -/
def inlineScriptPayload (src : Text) : Text := '"' :: src.flatMap payloadChar ++ ['"']

/-- The most bytes of a script that is left to the page's rewriter. -/
def maxPageRewriteInlineBytes : Nat := 256 * 1024

def blockedScript : Text :=
  "throw new DOMException('Blocked by ZeroProxy rewrite policy','NotSupportedError');"

def wrapperCall (name src : Text) : Text := name ++ ['('] ++ inlineScriptPayload src ++ ");"

/-- What the pass puts in the place of the script `src`. -/
def inlineReplacement (deps : ScriptDeps) (opts : TransformOptions) (kind : ScriptKind)
    (src : Text) : Text :=
  if (src.flatMap String.utf8EncodeChar).length ≤ maxPageRewriteInlineBytes then
    wrapperCall (if kind = .module then "__ZP_EXEC_INLINE_MODULE"
      else "__ZP_EXEC_INLINE_SCRIPT") src
  else match deps.rewriteScript src ⟨kind, opts.targetUrl, opts.proxyOrigin⟩ with
    | .ok code =>
      wrapperCall (if kind = .module then "__ZP_EXEC_INLINE_REWRITTEN_MODULE"
        else "__ZP_EXEC_INLINE_REWRITTEN") code
    | .error _ => blockedScript

/-- The content that is emitted for the script element `el` with content `src`. -/
def scriptPass (deps : ScriptDeps) (opts : TransformOptions) (el : Element) (src : Text) : Text :=
  match inlineKind el with
  | none => src
  | some .importmap => (deps.rewriteImportmapJson src opts.targetUrl opts.proxyOrigin).getD src
  | some .speculationrules =>
    (deps.rewriteSpeculationrulesJson src opts.targetUrl opts.proxyOrigin).getD src
  | some (.script kind) => inlineReplacement deps opts kind src

/-! ## The types that are covered -/

/-- The types, up to case and ASCII white space around them, that the pass and a browser
    both take for a script. -/
def coveredTypes : List Text := ["module", "text/javascript", "application/javascript",
    "application/ecmascript", "text/ecmascript"]

/-- The text of a `type` attribute is covered: it is missing or empty, or one of the types
    covered. -/
def Covered (type : Option Text) : Prop :=
  ∀ t ∈ type, t ≠ [] → ∃ m ∈ coveredTypes, eqCI (stripBoth isAsciiWhitespace t) m

def kindOf : Execution → ScriptKind
  | .classic => .classic
  | .module => .module

variable {m : Text}

theorem typeWord_spec (hm : m ∈ "module".toList :: javascriptTypes) :
    (∀ c ∈ m, isRustWhitespace c = false) ∧ (∀ c ∈ m, isJsWhitespace c = false) ∧
      (∀ c ∈ m, (c == '&') = false) ∧ m.map Char.toLower = m ∧ m ≠ [] := by
  have hall : ∀ m ∈ "module".toList :: javascriptTypes, m.any isRustWhitespace = false ∧
      m.any isJsWhitespace = false ∧ m.any (· == '&') = false ∧ m.map Char.toLower = m ∧
        m ≠ [] := by decide
  have hnone {p : Char → Bool} (h : m.any p = false) : ∀ c ∈ m, p c = false := fun c hc =>
    Bool.eq_false_iff.2 (any_eq_false.1 h c hc)
  obtain ⟨hr, hj, ha, hl, hne⟩ := hall m hm
  exact ⟨hnone hr, hnone hj, hnone ha, hl, hne⟩

theorem mem_typeWords_of_mem_coveredTypes (hm : m ∈ coveredTypes) :
    m ∈ "module".toList :: javascriptTypes := by
  have hall : ∀ m ∈ coveredTypes, m ∈ "module".toList :: javascriptTypes := by decide
  exact hall m hm

section word

variable {t m : Text} (hm : m ∈ "module".toList :: javascriptTypes)
  (h : eqCI (stripBoth isAsciiWhitespace t) m)

include hm h

theorem rustTrim_eq_of_typeWord : rustTrim t = stripBoth isAsciiWhitespace t :=
  stripBoth_eq_stripBoth (fun _ => isRustWhitespace_of_ascii)
    (eqCI_forall (fun _ => not_isAsciiAlpha_of_isRustWhitespace) h (typeWord_spec hm).1)

theorem jsTrim_eq_of_typeWord : jsTrim t = stripBoth isAsciiWhitespace t :=
  stripBoth_eq_stripBoth (fun _ => isJsWhitespace_of_ascii)
    (eqCI_forall (fun _ => not_isAsciiAlpha_of_isJsWhitespace) h (typeWord_spec hm).2.1)

theorem amp_not_mem_of_typeWord : '&' ∉ t := by
  obtain ⟨a, b, hs, ha, hb⟩ := exists_stripBoth isAsciiWhitespace t
  have hx := eqCI_forall (q := (· == '&')) (by simp [isAsciiAlpha]) h (typeWord_spec hm).2.2.1
  rw [hs, mem_append, mem_append, not_or, not_or]
  exact ⟨⟨fun hc => absurd (ha _ hc) (by decide), fun hc => absurd (hx _ hc) (by decide)⟩,
    fun hc => absurd (hb _ hc) (by decide)⟩

end word

theorem eqCI_trans_ne {s n : Text} (h : eqCI s m) (hne : m.map Char.toLower ≠ n.map Char.toLower) :
    eqCI s n = false := by
  rw [eqCI, beq_iff_eq] at h
  rw [eqCI, h, beq_eq_false_iff_ne]
  exact hne

theorem isJavascriptType_iff (t : Text) :
    isJavascriptType t ↔ (rustTrim t).map Char.toLower ∈ passTypes := by
  rw [isJavascriptType, decide_eq_true_eq, rustTrim, stripBoth_map isRustWhitespace_toLower]

variable {el : Element}

theorem inlineKind_of_covered {t : Text} (hsrc : el.hasAttribute "src" = false)
    (htype : el.getAttribute "type" = some t) (hm : m ∈ coveredTypes)
    (h : eqCI (stripBoth isAsciiWhitespace t) m) :
    inlineKind el = some (.script (if m = "module" then .module else .classic)) := by
  have hmw := mem_typeWords_of_mem_coveredTypes hm
  have htrim := rustTrim_eq_of_typeWord hmw h
  have hcovered : ∀ m ∈ coveredTypes, m ≠ "module" →
      m.map Char.toLower ≠ "module".toList.map Char.toLower ∧
      m.map Char.toLower ≠ "importmap".toList.map Char.toLower ∧
      m.map Char.toLower ≠ "speculationrules".toList.map Char.toLower ∧
      m.map Char.toLower ∈ ["".toList, "text/javascript".toList, "application/javascript".toList,
        "application/ecmascript", "text/ecmascript", "module"] := by decide
  rw [inlineKind, hsrc, if_neg Bool.false_ne_true, htype]
  dsimp only
  by_cases hmod : m = "module"
  · rw [if_pos hmod, isModuleType, ← hmod, h, if_pos rfl]
  obtain ⟨h1, h2, h3, h4⟩ := hcovered m hm hmod
  have hjs : isJavascriptType t := by
    rw [isJavascriptType_iff, htrim, beq_iff_eq.1 h]
    exact h4
  rw [if_neg hmod, isModuleType, eqCI_trans_ne h h1, htrim, eqCI_trans_ne h h2,
    eqCI_trans_ne h h3, hjs]
  simp

variable {language : Option Text} {k : Execution}

theorem covered_of_inlineKind {type : Option Text} {T : NamedRefs} {kind : ScriptKind}
    (htype : el.getAttribute "type" = type)
    (hexec : executedAs (type.map (decodeAttr T)) language = some k)
    (h : inlineKind el = some (.script kind)) : Covered type := by
  intro t ht hne
  obtain rfl := mem_def.1 ht
  rw [inlineKind] at h
  split at h
  · cases h
  rw [htype] at h
  dsimp only at h
  split at h
  · next hmod => exact ⟨"module", .head _, hmod⟩
  next hmod =>
  split at h
  · cases h
  split at h
  · cases h
  split at h
  · cases h
  next hjs =>
  have hempty : t.isEmpty = false := by simpa using hne
  rw [hempty, Bool.not_false, Bool.true_and, Bool.not_eq_true', Bool.not_eq_false,
    isJavascriptType_iff] at hjs
  -- The pass's words have no ampersand, so the browser reads the text as it stands.
  have hamp : '&' ∉ t := by
    have hall : ∀ w ∈ passTypes, '&' ∉ w := by decide
    obtain ⟨a, b, hs, ha, hb⟩ := exists_stripBoth isRustWhitespace t
    rw [hs, mem_append, mem_append, not_or, not_or]
    exact ⟨⟨fun hc => absurd (ha _ hc) (by decide),
      fun hc => hall _ hjs (mem_map_of_mem (f := Char.toLower) hc)⟩,
      fun hc => absurd (hb _ hc) (by decide)⟩
  rw [map_some, decodeAttr_eq_self T hamp] at hexec
  obtain ⟨m, hm, he, -⟩ := exists_of_executedAs hne hexec
  rw [rustTrim_eq_of_typeWord hm he, beq_iff_eq.1 he, (typeWord_spec hm).2.2.2.1] at hjs
  have hall : ∀ m ∈ "module".toList :: javascriptTypes, m ∈ passTypes → m ∈ coveredTypes := by decide
  exact ⟨m, hall m hm hjs, he⟩

theorem eq_classic_of_executedAs_none (h : executedAs none language = some k) : k = .classic := by
  have hne : eqCI (typeString none language) "module" = false := by
    match language with
    | none => decide
    | some [] => decide
    | some (c :: l) => rfl
  rw [executedAs] at h
  split at h
  · exact (some.inj h).symm
  · rw [hne] at h
    cases h

theorem inlineKind_eq_of_covered {type : Option Text} {T : NamedRefs}
    (hsrc : el.hasAttribute "src" = false)
    (htype : el.getAttribute "type" = type) (hcov : Covered type)
    (hexec : executedAs (type.map (decodeAttr T)) language = some k) :
    inlineKind el = some (.script (kindOf k)) := by
  match type, hcov with
  | none, _ =>
    rw [eq_classic_of_executedAs_none hexec, inlineKind, hsrc, htype]
    rfl
  | some [], _ =>
    obtain rfl : Execution.classic = k := some.inj hexec
    rw [inlineKind, hsrc, htype]
    rfl
  | some (c :: t), hcov =>
    obtain ⟨m, hm, he⟩ := hcov _ rfl (cons_ne_nil c t)
    have hmw := mem_typeWords_of_mem_coveredTypes hm
    rw [map_some, decodeAttr_eq_self T (amp_not_mem_of_typeWord hmw he)] at hexec
    obtain ⟨m', hm', he', hk⟩ := exists_of_executedAs (cons_ne_nil c t) hexec
    obtain rfl : m = m' := by
      have := (beq_iff_eq.1 he).symm.trans (beq_iff_eq.1 he')
      rwa [(typeWord_spec hmw).2.2.2.1, (typeWord_spec hm').2.2.2.1] at this
    rw [inlineKind_of_covered hsrc htype hm he]
    cases k with
    | classic => rw [if_neg fun h => by simpa using hk.2 h, kindOf]
    | module => rw [if_pos (hk.1 rfl), kindOf]

end ZeroProxy.Htmltx
