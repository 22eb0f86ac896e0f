import ZeroProxy.Htmltx.Script

/-!
# Inline scripts

Two parts of the proxy replace the content of inline scripts: the transformer, in the
markup, and the membrane, for the script elements that a page inserts itself. Each has a
list of the types it takes for scripts, and both lists lack some that a browser executes.
-/

namespace ZeroProxy.Membrane

open Text Html Htmltx Rewriter Element

/-- A script element of the page, as the membrane sees it. -/
structure ScriptNode where
  /-- The value of `type`. -/
  type : Option Text
  /-- The value of `src`. -/
  src : Option Text
  /-- The value of `href`. -/
  href : Option Text
  /-- The text of the script. -/
  text : Text

/-- The kinds of script, and the JSON types, that the membrane knows. -/
inductive DataType where
  | classic
  | module
  | importmap
  | speculationrules
  deriving DecidableEq

/-- The value of `type`, trimmed and in lower case. -/
def normalizedType (el : ScriptNode) : Text := jsLower (jsTrim (el.type.getD []))

/-- The kind of script that a normalized type names. -/
def kindOfType (t : Text) : Option DataType := if t = "module" then some .module
  else if t ∈ ["".toList, "text/javascript", "application/javascript",
      "application/ecmascript", "text/ecmascript"] then some .classic
  else none

/-- The kind of script that the membrane takes the element for. -/
def executableScriptKindForElement (el : ScriptNode) : Option DataType :=
  kindOfType (normalizedType el)

/-- The kind of script or the JSON type that the membrane takes the element for. -/
def executableScriptDataType (el : ScriptNode) : Option DataType :=
  match executableScriptKindForElement el with
  | some kind => some kind
  | none =>
    let t := normalizedType el
    if t = "importmap" then some .importmap
    else if t = "speculationrules" then some .speculationrules
    else none

/-- The calls that the proxy itself puts in the place of a script. -/
def preparedCalls : List Text := ["__ZP_EXEC_INLINE_SCRIPT(", "__ZP_EXEC_INLINE_MODULE(",
    "__ZP_EXEC_INLINE_REWRITTEN(", "__ZP_EXEC_INLINE_REWRITTEN_MODULE(",
    "__ZP_LOAD_EXTERNAL_SCRIPT("]

/-- The text begins with one of the proxy's calls. -/
def isPreparedInlineScript (text : Text) : Bool :=
  preparedCalls.any fun p => p.isPrefixOf (jsTrim text)

/-- A character in a JSON string, with `<` escaped too. -/
def jsonChar (c : Char) : Text :=
  if c = '\u2028' ∨ c = '\u2029' then [c] else payloadChar c

/-- The call that stands for the script `source`. -/
def inlineScriptWrapper (source : Text) (kind : DataType) : Text :=
  (if kind = .module then "__ZP_EXEC_INLINE_MODULE(".toList else "__ZP_EXEC_INLINE_SCRIPT(") ++
    ('"' :: source.flatMap jsonChar ++ ['"']) ++ ");"

/-- What preparing a script element does: set its text, route its source, or nothing. -/
inductive Prepared where
  | text (t : Text)
  | source (raw : Text)
  | unchanged
  deriving DecidableEq

/-- The rewriters of JSON scripts. -/
structure JsonDeps where
  /-- An import map with its addresses rewritten. -/
  rewriteImportMapText : Text → Text
  /-- Speculation rules with their URLs rewritten. -/
  rewriteSpeculationRulesText : Text → Text

/-- `a || b` on strings that may be missing: the first one that is not empty. -/
def orElse (a b : Option Text) : Option Text := (a.filter (!·.isEmpty)).or (b.filter (!·.isEmpty))

/-- What the membrane does to a script element that the page inserts. -/
def prepareScriptElement (deps : JsonDeps) (el : ScriptNode) : Prepared :=
  let dataType := executableScriptDataType el
  if dataType = some .importmap then
    if (orElse el.src none).isNone then .text (deps.rewriteImportMapText el.text) else .unchanged
  else if dataType = some .speculationrules then
    if (orElse el.src none).isNone then .text (deps.rewriteSpeculationRulesText el.text)
    else .unchanged
  else match orElse el.src el.href with
    | some raw => .source raw
    | none =>
      match dataType with
      | some kind =>
        if el.text.isEmpty then .unchanged
        else if isPreparedInlineScript el.text then .unchanged
        else .text (inlineScriptWrapper el.text kind)
      | none => .unchanged

/-! ## When the content is replaced -/

/-- The kind of script for what a browser executes. -/
def dataTypeOf : Execution → DataType
  | .classic => .classic
  | .module => .module

/-- In the markup, the content of a script with these texts of `type` and `language`, if a
    browser executes it, is replaced by the transformer. -/
def TransformerReplaces (T : NamedRefs) (type language : Option Text) : Prop :=
  ∀ k, executedAs (type.map (decodeAttr T)) (language.map (decodeAttr T)) = some k →
    ∀ (deps : ScriptDeps) (opts : TransformOptions) (el : Element) (src : Text),
      el.hasAttribute "src" = false → el.getAttribute "type" = type →
        scriptPass deps opts el src = inlineReplacement deps opts (kindOf k) src

/-- The text of a script that the page inserts with these values of `type` and `language`, if
    a browser executes it, is replaced by the membrane. -/
def MembraneReplaces (type language : Option Text) (text : Text) : Prop :=
  ∀ k, executedAs type language = some k → text ≠ [] →
    ∀ deps, prepareScriptElement deps ⟨type, none, none, text⟩ =
      .text (inlineScriptWrapper text (dataTypeOf k))

theorem normalizedType_eq_of_typeWord {el : ScriptNode} {t m : Text} (ht : el.type = some t)
    (hm : m ∈ "module".toList :: javascriptTypes) (h : eqCI (stripBoth isAsciiWhitespace t) m) :
    normalizedType el = m := by
  have hq : ∀ c ∈ stripBoth isAsciiWhitespace t, (c == '\u212a' || c == '\u0130') = false := by
    refine eqCI_forall (q := fun c => c == '\u212a' || c == '\u0130') (fun c hc => ?_) h ?_
    · rw [Bool.or_eq_true, beq_iff_eq, beq_iff_eq] at hc
      rcases hc with rfl | rfl <;> decide
    · have hall : ∀ m ∈ "module".toList :: javascriptTypes,
          m.any (fun c => c == '\u212a' || c == '\u0130') = false := by decide
      exact fun c hc => Bool.eq_false_iff.2 (List.any_eq_false.1 (hall m hm) c hc)
  rw [normalizedType, ht, Option.getD_some, jsTrim_eq_of_typeWord hm h, jsLower_eq_map,
    beq_iff_eq.1 h, (typeWord_spec hm).2.2.2.1]
  intro c hc
  simpa using hq c hc

theorem executableScriptKindForElement_of_executedAs (el : ScriptNode) {language : Option Text}
    {k : Execution} (hexec : executedAs el.type language = some k) :
    (Covered el.type → executableScriptKindForElement el = some (dataTypeOf k)) ∧
      (¬ Covered el.type → executableScriptKindForElement el = none) := by
  obtain ⟨type, src, href, text⟩ := el
  match type, hexec with
  | none, hexec =>
    refine ⟨fun _ => ?_, fun hcov => absurd nofun hcov⟩
    rw [eq_classic_of_executedAs_none hexec]
    rfl
  | some [], hexec =>
    obtain rfl : Execution.classic = k := Option.some.inj hexec
    refine ⟨fun _ => rfl, fun hcov => absurd (fun t ht hne => ?_) hcov⟩
    exact absurd (Option.some.inj ht).symm hne
  | some (c :: t), hexec =>
    obtain ⟨m, hm, he, hk⟩ := exists_of_executedAs (List.cons_ne_nil c t) hexec
    have hkinds : ∀ m ∈ "module".toList :: javascriptTypes,
        (m = "module" → kindOfType m = some .module) ∧
        (m ≠ "module" → m ∈ coveredTypes → kindOfType m = some .classic) ∧
        (m ∉ coveredTypes → kindOfType m = none) := by decide
    rw [executableScriptKindForElement, normalizedType_eq_of_typeWord rfl hm he]
    refine ⟨fun hcov => ?_, fun hcov => (hkinds m hm).2.2 fun hmc => hcov ?_⟩
    · obtain ⟨m', hm', he'⟩ := hcov _ rfl (List.cons_ne_nil c t)
      obtain rfl : m' = m := by
        have := (beq_iff_eq.1 he').symm.trans (beq_iff_eq.1 he)
        rwa [(typeWord_spec hm).2.2.2.1,
          (typeWord_spec (mem_typeWords_of_mem_coveredTypes hm')).2.2.2.1] at this
      cases k with
      | module => exact (hkinds m' hm).1 (hk.1 rfl)
      | classic => exact (hkinds m' hm).2.1 (fun h => by simpa using hk.2 h) hm'
    · intro t' ht' _
      exact ⟨m, hmc, Option.some.inj ht' ▸ he⟩

theorem transformerReplaces_iff (T : NamedRefs) (type language : Option Text) :
    TransformerReplaces T type language ↔
      executedAs (type.map (decodeAttr T)) (language.map (decodeAttr T)) = none ∨
        Covered type := by
  constructor
  · intro h
    cases hexec : executedAs (type.map (decodeAttr T)) (language.map (decodeAttr T)) with
    | none => exact .inl rfl
    | some k =>
      right
      -- A start tag with this type, and JSON rewriters that change nothing.
      let el : Element := ⟨"script", (type.map (⟨"type", ·, false⟩)).toList⟩
      have htype : el.getAttribute "type" = type := by
        cases type <;> simp [el, getAttribute, attr, named]
      have hsrc : el.hasAttribute "src" = false := by
        cases type <;> simp [el, hasAttribute, attr, named]
      have hx := h k hexec ⟨fun _ _ => .error [], fun _ _ _ => none, fun _ _ _ => none⟩ ⟨[], []⟩ el
        ['x'] hsrc htype
      have hne : inlineReplacement ⟨fun _ _ => .error [], fun _ _ _ => none, fun _ _ _ => none⟩
          ⟨[], []⟩ (kindOf k) ['x'] ≠ ['x'] := by cases k <;> decide
      rw [scriptPass] at hx
      split at hx
      · exact absurd hx.symm hne
      · exact absurd hx.symm hne
      · exact absurd hx.symm hne
      · next kind hkind => exact covered_of_inlineKind htype hexec hkind
  · rintro (hnone | hcov) k hexec deps opts el src hsrc htype
    · rw [hnone] at hexec
      cases hexec
    · rw [scriptPass, inlineKind_eq_of_covered hsrc htype hcov hexec]

theorem prepareScriptElement_of_kind (deps : JsonDeps) {type : Option Text} {text : Text}
    {k : Execution} (hne : text ≠ [])
    (hkind : executableScriptKindForElement ⟨type, none, none, text⟩ = some (dataTypeOf k)) :
    prepareScriptElement deps ⟨type, none, none, text⟩ =
      if isPreparedInlineScript text then .unchanged
      else .text (inlineScriptWrapper text (dataTypeOf k)) := by
  have hdata : executableScriptDataType ⟨type, none, none, text⟩ = some (dataTypeOf k) := by
    rw [executableScriptDataType, hkind]
  cases k <;> simp [prepareScriptElement, hdata, dataTypeOf, orElse, hne]

theorem prepareScriptElement_of_no_kind {type : Option Text} {text : Text}
    (hkind : executableScriptKindForElement ⟨type, none, none, text⟩ = none) (s : Text) :
    prepareScriptElement ⟨fun _ => s, fun _ => s⟩ ⟨type, none, none, text⟩ = .text s ∨
      prepareScriptElement ⟨fun _ => s, fun _ => s⟩ ⟨type, none, none, text⟩ = .unchanged := by
  rw [prepareScriptElement, executableScriptDataType, hkind]
  by_cases h1 : normalizedType ⟨type, none, none, text⟩ = "importmap"
  · rw [if_pos h1]
    exact .inl rfl
  rw [if_neg h1]
  by_cases h2 : normalizedType ⟨type, none, none, text⟩ = "speculationrules"
  · rw [if_pos h2]
    exact .inl rfl
  · rw [if_neg h2]
    exact .inr rfl

theorem membraneReplaces_iff (type language : Option Text) (text : Text) :
    MembraneReplaces type language text ↔
      executedAs type language = none ∨ text = [] ∨
        Covered type ∧ isPreparedInlineScript text = false := by
  have hkind {k : Execution} (hexec : executedAs type language = some k) :=
    executableScriptKindForElement_of_executedAs ⟨type, none, none, text⟩ hexec
  constructor
  · intro h
    cases hexec : executedAs type language with
    | none => exact .inl rfl
    | some k =>
      refine .inr (Classical.or_iff_not_imp_left.2 fun hne => ?_)
      have htext := h k hexec hne ⟨fun _ => [], fun _ => []⟩
      have hcov : Covered type := by
        by_contra hcov
        rcases prepareScriptElement_of_no_kind ((hkind hexec).2 hcov) [] with hp | hp
        · rw [hp, Prepared.text.injEq] at htext
          exact List.append_ne_nil_of_right_ne_nil _ (by decide) htext.symm
        · rw [hp] at htext
          cases htext
      rw [prepareScriptElement_of_kind _ hne ((hkind hexec).1 hcov)] at htext
      cases hp : isPreparedInlineScript text with
      | false => exact ⟨hcov, rfl⟩
      | true =>
        rw [hp] at htext
        cases htext
  · rintro (hnone | hempty | ⟨hcov, hp⟩) k hexec hne deps
    · rw [hnone] at hexec
      cases hexec
    · exact absurd hempty hne
    · rw [prepareScriptElement_of_kind deps hne ((hkind hexec).1 hcov), hp,
        if_neg Bool.false_ne_true]

/-- The content of an inline script that a browser executes is replaced, in the markup and
    in the page, exactly when the text of its `type` is covered: missing, empty, or one of
    five types written without character references. In the page its text must not begin with
    one of the proxy's own calls either. -/
theorem scripts_replaced_iff (T : NamedRefs) (type language : Option Text) (text : Text) :
    (TransformerReplaces T type language ↔
      executedAs (type.map (decodeAttr T)) (language.map (decodeAttr T)) = none ∨
        Covered type) ∧
    (MembraneReplaces type language text ↔ executedAs type language = none ∨ text = [] ∨
        Covered type ∧ isPreparedInlineScript text = false) :=
  ⟨transformerReplaces_iff T type language, membraneReplaces_iff type language text⟩

/-- A legacy type is executed by browsers, and passed through by the transformer and the
    membrane. -/
theorem legacy_type_passed_through : let type := some "text/jscript".toList
    let deps : ScriptDeps := ⟨fun _ _ => .error [], fun _ _ _ => none, fun _ _ _ => none⟩
    let el : Element := ⟨"script", [⟨"type", "text/jscript", false⟩]⟩
    let text := "location".toList
    executedAs (type.map (decodeAttr basicNamedRefs)) none = some .classic ∧
      scriptPass deps ⟨"https://t.test/", "http://p.test"⟩ el text = text ∧
      prepareScriptElement ⟨id, id⟩ ⟨type, none, none, text⟩ = .unchanged ∧
      ¬ TransformerReplaces basicNamedRefs type none ∧ ¬ MembraneReplaces type none text := by
  intro type deps el text
  have hexec : executedAs (type.map (decodeAttr basicNamedRefs)) none = some .classic := by decide
  have hscript : scriptPass deps ⟨"https://t.test/".toList, "http://p.test"⟩ el text = text := by
    decide
  have hprep : prepareScriptElement ⟨id, id⟩ ⟨type, none, none, text⟩ = .unchanged := by decide
  refine ⟨hexec, hscript, hprep, fun h => ?_, fun h => ?_⟩
  · have := h _ hexec deps ⟨"https://t.test/", "http://p.test"⟩ el text (by decide)
      (by decide)
    exact absurd this (by decide)
  · have := h .classic (by decide) (by decide) ⟨id, id⟩
    cases this

end ZeroProxy.Membrane
