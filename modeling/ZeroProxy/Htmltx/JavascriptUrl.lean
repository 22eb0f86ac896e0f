import ZeroProxy.Htmltx.Attributes

/-!
# What the attribute pass leaves

The pass writes the attribute it visits and attributes of its own, named `data-zp-…`; before
that it moves or filters a few others (`preparedAttributes`). Every other attribute stays,
and so does the tag name. Of what it does write, two things are said: event handlers stay scripts,
and a navigation attribute does not hold a `javascript:` URL.
-/

namespace ZeroProxy.Htmltx

open Element Html List Text

variable (T : NamedRefs) (deps : Deps) (opts : TransformOptions)

/-! ## Other attributes -/

/-- A name that is not one of the pass. -/
def Plain (n : Text) : Prop := ¬ "data-zp-" <+: n

instance (n : Text) : Decidable (Plain n) := inferInstanceAs (Decidable (¬ _))

theorem Plain.zpAttr_ne {n : Text} (hn : Plain n) (s : Text) : zpAttr s ≠ n := by
  rintro rfl
  exact hn (prefix_append _ s)

/-- The attributes that the pass moves or filters before it visits the others. -/
def preparedAttributes : List Text := ["integrity", "http-equiv", "content", "srcdoc", "src",
    "ping"]

section frame

variable {n : Text} (hn : Plain n)

include hn

theorem named_moveAttribute {m s : Text} (hm : m ≠ n) (el : Element) :
    (moveAttribute m (zpAttr s) el).named n = el.named n := by
  rw [moveAttribute]
  split
  · rw [named_removeAttribute_of_ne _ hm, named_setAttribute_of_ne _ _ (hn.zpAttr_ne s)]
  · rfl

theorem named_neutralizeMeta (hequiv : "http-equiv" ≠ n) (hcontent : "content" ≠ n)
    (el : Element) : (neutralizeMeta deps opts el).named n = el.named n := by
  simp only [neutralizeMeta]
  split
  · rfl
  split
  · split <;> simp only [named_removeAttribute_of_ne _ hequiv,
      named_removeAttribute_of_ne _ hcontent, named_setAttribute_of_ne _ _ hcontent,
      named_setAttribute_of_ne _ _ (hn.zpAttr_ne _)]
  split
  · simp only [named_removeAttribute_of_ne _ hequiv, named_removeAttribute_of_ne _ hcontent,
      named_setAttribute_of_ne _ _ (hn.zpAttr_ne _)]
  · rfl

theorem named_moveFrameSource (hsrcdoc : "srcdoc" ≠ n) (hsrc : "src" ≠ n)
    (el : Element) : (moveFrameSource el).named n = el.named n := by
  have hm := named_moveAttribute hn (s := "srcdoc") hsrcdoc el
  simp only [moveFrameSource]
  split
  · split
    · split
      · exact hm
      · rw [named_removeAttribute_of_ne _ hsrc,  named_setAttribute_of_ne _ _ (hn.zpAttr_ne _), hm]
    · exact hm
  · rfl

theorem named_rewriteRefresh (hcontent : "content" ≠ n) (base : Text) (el : Element) :
    (rewriteRefresh opts base el).named n = el.named n := by
  rw [rewriteRefresh]
  split
  · split
    · split
      · rw [named_setAttribute_of_ne _ _ hcontent, named_setAttribute_of_ne _ _ (hn.zpAttr_ne _)]
      · rfl
    · rfl
  · rfl

theorem named_prepareElement (hp : n ∉ preparedAttributes) (base : Text) (el : Element) :
    (prepareElement deps opts base el).named n = el.named n := by
  simp only [preparedAttributes, mem_cons, not_mem_nil, or_false, not_or] at hp
  obtain ⟨hint, hequiv, hcontent, hsrcdoc, hsrc, hping⟩ := hp
  have hstrip : (stripIntegrity el).named n = el.named n := by
    rw [stripIntegrity]
    split
    · exact named_moveAttribute hn (Ne.symm hint) el
    · rfl
  rw [prepareElement, stripPing]
  split
  · rw [named_moveAttribute hn (Ne.symm hping), named_rewriteRefresh opts hn (Ne.symm hcontent),
      named_moveFrameSource hn (Ne.symm hsrcdoc) (Ne.symm hsrc),
      named_neutralizeMeta deps opts hn (Ne.symm hequiv) (Ne.symm hcontent), hstrip]
  · rw [named_rewriteRefresh opts hn (Ne.symm hcontent),
      named_moveFrameSource hn (Ne.symm hsrcdoc) (Ne.symm hsrc),
      named_neutralizeMeta deps opts hn (Ne.symm hequiv) (Ne.symm hcontent), hstrip]

theorem named_visitAttr {name : Text} (hname : name ≠ n) (base : Text) (el : Element)
    (value : Text) : (visitAttr deps opts base el name value).1.named n = el.named n := by
  have hset (el : Element) (v : Text) : (el.setAttribute name v).named n = el.named n :=
    el.named_setAttribute_of_ne v hname
  have hzp (el : Element) (s v : Text) : (el.setAttribute (zpAttr s) v).named n = el.named n :=
    el.named_setAttribute_of_ne v (hn.zpAttr_ne s)
  simp only [visitAttr]
  split
  · split
    · simp only [rewriteUrl, rewriteStyle, rewriteSrcset, rewriteSubresource, rewriteNavigation,
        litAttribute]
      -- Every branch only writes `name` and the proxy's own attributes.
      repeat' split
      all_goals simp [hset, hzp]
    · simp only [rewriteJavascriptUrl, litAttribute]
      split
      · simp [hset, hzp]
      · rw [named_removeAttribute_of_ne _ (hn.zpAttr_ne _), hset]
  split
  · rw [rewriteHandler]
    split
    · exact hset _ _
    · exact el.named_removeAttribute_of_ne hname
  · rfl

end frame

/-! ## The tag name -/

theorem tag_visitAttr (base : Text) (el : Element) (name value : Text) :
    (visitAttr deps opts base el name value).1.tag = el.tag := by
  simp only [visitAttr]
  split
  · split
    · simp only [rewriteUrl, rewriteStyle, rewriteSrcset, rewriteSubresource, rewriteNavigation]
      repeat' split
      all_goals rfl
    · simp only [rewriteJavascriptUrl]
      split <;> rfl
  split
  · rw [rewriteHandler]
    split <;> rfl
  · rfl

theorem tag_visitAttrs (base : Text) (el : Element) (l : List (Text × Text)) :
    (visitAttrs deps opts base el l).1.tag = el.tag := by
  induction l generalizing el with
  | nil => rfl
  | cons p l ih =>
    rw [visitAttrs]
    exact (ih _).trans (tag_visitAttr deps opts base el p.1 p.2)

/-! ## The texts visited -/

theorem filter_attrsSnapshot {n : Text} (hn : n ∈ urlAttributes ∨ isOnHandler n) (el : Element) :
    (attrsSnapshot el).filter (·.1 = n) = (el.named n).map fun a => (a.name, a.value) := by
  rw [attrsSnapshot, filter_map, filter_filter, named]
  congr 1
  refine filter_congr fun a _ => ?_
  by_cases ha : a.name = n
  · have hv : (decide (a.name ∈ urlAttributes) || isOnHandler a.name) := by
      rw [Bool.or_eq_true, decide_eq_true_eq, ha]
      exact hn
    rw [hv, Bool.and_true]
    rfl
  · simp [ha]

/-! ## Event handlers

A browser compiles the value of the attribute, its text with the character references decoded; the
pass rewrites the text itself. The two agree when the text has no reference. -/

open Rewriter

/-! ### What is emitted -/

open Bool Option Url

/-! ### What is written on a navigation attribute -/

/-- The text of an attribute in the markup that is, for a browser, no `javascript:` URL
    but the inert one. -/
def SafeText (s : Text) : Prop :=
  IsJavascriptURL (decodeAttr T s) → decodeAttr T s = inertJavascriptUrl

theorem safeText_cons {c : Char} (hc : Harmless c) (hamp : c ≠ '&') (s : Text) :
    SafeText T (c :: s) := by
  intro h
  obtain ⟨d, hd, hj⟩ := h.head
  rw [decodeAttr, decodeRefs_cons _ hamp,
    dropWhile_cons_of_neg (by rw [hc.1]; exact false_ne_true), head?_cons,
    some.injEq] at hd
  exact absurd (hd ▸ hj) hc.2

theorem safeText_inertJavascriptUrl :
    SafeText T (escapeDoubleQuotes inertJavascriptUrl) := by
  have hesc : escapeDoubleQuotes inertJavascriptUrl = inertJavascriptUrl := by decide
  rw [hesc]
  exact fun _ => decodeAttr_eq_self T (by decide)

theorem safeText_proxiedNavigationUrl {abs origin control next : Text}
    (horigin : isHttpUrl origin) (h : proxiedNavigationUrl abs origin control = some next) :
    SafeText T (escapeDoubleQuotes next) := by
  have hhead : ∃ c t, origin = c :: t ∧ c.toLower = 'h' := by
    rw [isHttpUrl, or_eq_true] at horigin
    rcases horigin with ho | ho
    · obtain ⟨c, t, ht, hc, -⟩ := exists_cons_of_startsWithCI (p := 'h') ho
      exact ⟨c, t, ht, hc⟩
    · obtain ⟨c, t, ht, hc, -⟩ := exists_cons_of_startsWithCI (p := 'h') ho
      exact ⟨c, t, ht, hc⟩
  obtain ⟨c, t, rfl, hc⟩ := hhead
  have hch : c = 'h' ∨ c = 'H' := by
    rw [← Char.toNat_inj, toNat_toLower, show 'h'.toNat = 0x68 from rfl] at hc
    rw [← Char.toNat_inj, ← Char.toNat_inj, show 'h'.toNat = 0x68 from rfl,
      show 'H'.toNat = 0x48 from rfl]
    split at hc <;> omega
  have hprops : Harmless c ∧ c ≠ '&' ∧ c ≠ '"' ∧ (c == '/') = false := by
    rcases hch with rfl | rfl <;> decide
  obtain ⟨hharm, hamp, hquot, hslash⟩ := hprops
  obtain ⟨u, hu⟩ := exists_controlBase_eq_cons hslash t control
  rw [proxiedNavigationUrl, isEmpty_cons, if_neg Bool.false_ne_true, some.injEq, hu] at h
  rw [← h, cons_append, cons_append, escapeDoubleQuotes_cons hquot]
  exact safeText_cons T hharm hamp _

theorem not_telling_of_toLower {c x : Char} (h : c.toLower = x) (hx : isAsciiAlpha x)
    (hj : x ≠ 'j') : ¬ Telling c := by
  have hc : isAsciiAlpha c := by rw [← isAsciiAlpha_toLower, h, hx]
  rintro (hcj | rfl | hc0)
  · exact hj (h.symm.trans hcj)
  · exact absurd hc (by decide)
  · simp only [isAsciiAlpha, or_eq_true, and_eq_true, decide_eq_true_eq] at hc
    simp only [isC0OrSpace, decide_eq_true_eq] at hc0
    omega

theorem safeText_of_absoluteTargetUrl_eq_none {base v : Text}
    (hbase : isHttpUrl base)
    (hjs : startsWithAsciiCi (rustTrimStart (decodeUrlHtmlEntities v)) "javascript:" = false)
    (hnone : absoluteTargetUrl (rustTrimStart (decodeUrlHtmlEntities v)) base = none) :
    SafeText T v := by
  intro h
  exfalso
  obtain ⟨c, hc, htell⟩ := head_decodeUrlHtmlEntities T v h.head
  set trimmed := rustTrimStart (decodeUrlHtmlEntities v) with htrimmed
  have hidem : trimmed.dropWhile isRustWhitespace = trimmed := by
    rw [htrimmed, rustTrimStart, dropWhile_idempotent]
  have hhead : (rustTrim trimmed).head? = some c := by
    rw [rustTrim, head?_stripBoth, hidem]
    exact hc
  have hpre : rustTrim trimmed <+: trimmed := by
    rw [rustTrim, stripBoth, hidem]
    exact rdropWhile_prefix _ _
  -- An inert scheme other than `javascript:` begins with a letter that tells nothing.
  have hletter {p : Char} {ps : Text} (hp : startsWithCI (rustTrim trimmed) (p :: ps))
      (hl : isAsciiAlpha p.toLower) (hj : p.toLower ≠ 'j') : False := by
    obtain ⟨d, t, hd, hdp, -⟩ := exists_cons_of_startsWithCI hp
    rw [hd, head?_cons, some.injEq] at hhead
    exact not_telling_of_toLower (hhead ▸ hdp) hl hj htell
  rcases absoluteTargetUrl_eq_none hbase hnone with h0 | h0 | h0
  · rw [h0] at hhead
    cases hhead
  · rw [hhead, some.injEq] at h0
    subst h0
    exact absurd htell (by unfold Telling; decide)
  simp only [isInertScheme, or_eq_true] at h0
  rcases h0 with ((((h0 | h0) | h0) | h0) | h0) | h0
  · exact hletter (p := 'd') h0 (by decide) (by decide)
  · exact hletter (p := 'b') h0 (by decide) (by decide)
  · exact hletter (p := 'a') h0 (by decide) (by decide)
  · exact hletter (p := 'm') h0 (by decide) (by decide)
  · rw [startsWithAsciiCi, startsWithCI_of_prefix hpre h0] at hjs
    cases hjs
  · exact hletter (p := 'v') h0 (by decide) (by decide)

theorem navigationAttributes_spec {tag n : Text} (h : (tag, n) ∈ navigationAttributes) :
    n ∈ urlAttributes ∧ n ≠ "style" ∧ (tag, n) ∉ srcsetAttributes ∧
      (tag, n) ∉ subresourceAttributes ∧ Plain n ∧ n ∉ preparedAttributes := by
  have hall : ∀ p ∈ navigationAttributes, p.2 ∈ urlAttributes ∧ p.2 ≠ "style" ∧
      p ∉ srcsetAttributes ∧ p ∉ subresourceAttributes ∧ Plain p.2 ∧
      p.2 ∉ preparedAttributes := by decide
  exact hall _ h

theorem isHttpUrl_updateBase (el : Element) {base : Text} (hbase : isHttpUrl base) :
    isHttpUrl (updateBase opts el base) := by
  rw [updateBase]
  split
  · split
    · dsimp only
      split
      · exact hbase
      · next href _ _ =>
        cases habs : absoluteTargetUrl (rustTrim href) opts.targetUrl with
        | none => exact hbase
        | some abs => exact isHttpUrl_absoluteTargetUrl habs
    · exact hbase
  · exact hbase

section navigation

variable {deps opts} {base n : Text} (hbase : isHttpUrl base)
  (horigin : isHttpUrl opts.proxyOrigin)

/-- The emitted text of the attribute `n` is safe. -/
def SafeAttr (el : Element) (n : Text) : Prop := ∀ a, el.attr n = some a → SafeText T a.emit

include hbase horigin

theorem visitAttr_navigation {el : Element} (hnav : (el.tag, n) ∈ navigationAttributes)
    (v : Text) : SafeAttr T (visitAttr deps opts base el n v).1 n ∨
      ((visitAttr deps opts base el n v).1.attr n = el.attr n ∧ SafeText T v) := by
  obtain ⟨hurl, hstyle, hsrcset, hsub, hplain, -⟩ := navigationAttributes_spec hnav
  simp only [visitAttr, if_pos hurl]
  split
  · next hjs =>
    rw [not_eq_true'] at hjs
    simp only [rewriteUrl, if_neg hstyle, if_neg hsrcset, if_neg hsub, if_pos hnav,
      rewriteNavigation]
    cases habs : absoluteTargetUrl (rustTrimStart (decodeUrlHtmlEntities v)) base with
    | none => exact .inr ⟨rfl, safeText_of_absoluteTargetUrl_eq_none T hbase hjs habs⟩
    | some abs =>
      left
      cases hnext : proxiedNavigationUrl abs opts.proxyOrigin controlPrefix with
      | none =>
        -- Only an empty origin has no address.
        rw [proxiedNavigationUrl] at hnext
        split at hnext
        · next he =>
          rw [isEmpty_iff.1 he] at horigin
          cases horigin
        · cases hnext
      | some next =>
        intro a ha
        simp only [hnext, litAttribute, attr_setAttribute_of_ne _ _ (hplain.zpAttr_ne _),
          attr_setAttribute, some.injEq] at ha
        subst ha
        exact safeText_proxiedNavigationUrl T horigin hnext
  · left
    intro a ha
    have hattr : (rewriteJavascriptUrl deps opts n (decodeUrlHtmlEntities v)
        (rustTrimStart (decodeUrlHtmlEntities v)) el).1.attr n =
          some ⟨n, inertJavascriptUrl, true⟩ := by
      simp only [rewriteJavascriptUrl, litAttribute]
      split
      · simp [attr_setAttribute_of_ne _ _ (hplain.zpAttr_ne _)]
      · rw [attr_removeAttribute_of_ne _ (hplain.zpAttr_ne _), attr_setAttribute]
    rw [hattr, some.injEq] at ha
    subst ha
    exact safeText_inertJavascriptUrl T

theorem visitAttrs_navigation {el : Element} (hnav : (el.tag, n) ∈ navigationAttributes)
    {l : List (Text × Text)}
    (h : SafeAttr T el n ∨
      ∃ v, el.attr n = some ⟨n, v, false⟩ ∧ (l.filter (·.1 = n)).head? = some (n, v)) :
    SafeAttr T (visitAttrs deps opts base el l).1 n := by
  induction l generalizing el with
  | nil =>
    rcases h with h | ⟨v, -, hv⟩
    · exact h
    · cases hv
  | cons p l ih =>
    obtain ⟨name, value⟩ := p
    rw [visitAttrs]
    refine ih ((tag_visitAttr deps opts base el name value).symm ▸ hnav) ?_
    by_cases hname : name = n
    · subst hname
      rcases visitAttr_navigation T hbase horigin hnav value with hsafe | ⟨hattr, hsafe⟩
      · exact .inl hsafe
      -- The attribute is as it was, so it is the text visited or was safe before.
      left
      intro a ha
      rw [hattr] at ha
      rcases h with h | ⟨v, hv, hfind⟩
      · exact h a ha
      · rw [filter_cons_of_pos (by simp), head?_cons, some.injEq, Prod.mk.injEq] at hfind
        rw [hv, some.injEq] at ha
        rw [← ha, ← hfind.2]
        exact hsafe
    · have hplain := (navigationAttributes_spec hnav).2.2.2.2.1
      have hattr : (visitAttr deps opts base el name value).1.attr n = el.attr n :=
        congrArg head? (named_visitAttr deps opts hplain hname base el value)
      rcases h with h | ⟨v, hv, hfind⟩
      · exact .inl fun a ha => h a (hattr ▸ ha)
      · rw [filter_cons_of_neg (by simpa using hname)] at hfind
        exact .inr ⟨v, hattr ▸ hv, hfind⟩

theorem visitElement_navigation {el : Element} (hraw : ∀ a ∈ el.attrs, a.written = false)
    (hnav : ((visitElement deps opts base el).1.1.tag, n) ∈ navigationAttributes) :
    SafeAttr T (visitElement deps opts base el).1.1 n := by
  simp only [visitElement] at hnav ⊢
  set base' := updateBase opts el base
  rw [tag_visitAttrs] at hnav
  obtain ⟨hurl, -, -, -, hplain, hprep⟩ := navigationAttributes_spec hnav
  have hattr : (prepareElement deps opts base' el).attr n = el.attr n :=
    congrArg head? (named_prepareElement deps opts hplain hprep base' el)
  refine visitAttrs_navigation T (isHttpUrl_updateBase opts el hbase) horigin hnav ?_
  rw [filter_attrsSnapshot (.inl hurl), head?_map, ← attr, hattr]
  cases hfind : el.attr n with
  | none =>
    refine .inl fun a ha => ?_
    rw [hattr, hfind] at ha
    cases ha
  | some a =>
    obtain ⟨hmem, hname⟩ := el.mem_of_attr n hfind
    refine .inr ⟨a.value, ?_, by rw [map_some, hname]⟩
    rw [← hname, ← hraw a hmem]

theorem visitElements_navigation {els : List Element}
    (hraw : ∀ el ∈ els, ∀ a ∈ el.attrs, a.written = false) :
    ∀ el ∈ (visitElements deps opts base els).1, (el.tag, n) ∈ navigationAttributes →
      SafeAttr T el n := by
  induction els generalizing base with
  | nil => exact nofun
  | cons e els ih =>
    intro el hel hnav
    rw [visitElements] at hel
    rcases mem_cons.1 hel with rfl | hel
    · exact visitElement_navigation T hbase horigin (hraw e (.head _)) hnav
    · exact ih (isHttpUrl_updateBase opts e hbase)
        (fun e' he' => hraw e' (.tail _ he')) el hel hnav

end navigation

/-- In a document of an http(s) target, no navigation attribute that the pass emits is, for
    a browser that decodes its references and parses the URL, a `javascript:` URL other
    than the inert one. -/
theorem attrPass_navigation_not_javascript (T : NamedRefs) (htarget : isHttpUrl opts.targetUrl)
    (horigin : isHttpUrl opts.proxyOrigin) (els : List Element)
    (hraw : ∀ el ∈ els, ∀ a ∈ el.attrs, a.written = false)
    (el : Element) (hel : el ∈ (attrPass deps opts els).1) (n s : Text)
    (hnav : (el.tag, n) ∈ navigationAttributes) (hs : el.emitted n = some s) :
    IsJavascriptURL (decodeAttr T s) → decodeAttr T s = inertJavascriptUrl := by
  obtain ⟨a, ha, rfl⟩ := map_eq_some_iff.1 hs
  exact visitElements_navigation T htarget horigin hraw el hel hnav a ha

/-- A URL that a tab hides from the transformer's scheme test is resolved like a relative
    one. -/
theorem attrPass_navigation_tab :
    let deps : Deps := ⟨fun _ _ => .error [], fun _ _ _ _ => none, fun c _ => c, fun _ => []⟩
    let opts : TransformOptions := ⟨"https://t.test/", "http://p.test"⟩
    let s := "http://p.test/zp/?via=https%3A%2F%2Ft.test%2Fjava%09script%3Aalert%281%29".toList
    ((attrPass deps opts [⟨"a", [⟨"href", "java\tscript:alert(1)", false⟩]⟩]).1.map
        fun el => el.emitted "href") = [some s] ∧
      (IsJavascriptURL (decodeAttr basicNamedRefs s) →
        decodeAttr basicNamedRefs s = inertJavascriptUrl) := by
  intro deps opts s
  refine ⟨by decide, ?_⟩
  refine attrPass_navigation_not_javascript deps opts basicNamedRefs (by decide) (by decide)
    [⟨"a", [⟨"href", "java\tscript:alert(1)", false⟩]⟩] (by decide)
    ⟨"a", [⟨"href", s, true⟩,
      ⟨"data-zp-target-url", "https://t.test/java\tscript:alert(1)", true⟩,
      ⟨"data-zp-lit-href", "java\tscript:alert(1)", true⟩]⟩ (by decide)
    "href" s (by decide) (by decide)

/-- The attribute `xlink:href` of an `area` is no navigation attribute to the pass: its text
    stays. -/
theorem attrPass_area_xlink_href_javascript :
    let deps : Deps := ⟨fun _ _ => .error [], fun _ _ _ _ => none, fun c _ => c, fun _ => []⟩
    let opts : TransformOptions := ⟨"https://t.test/", "http://p.test"⟩
    let s := "java\tscript:alert(1)".toList
    ((attrPass deps opts [⟨"area", [⟨"xlink:href", s, false⟩]⟩]).1.map
        fun el => el.emitted "xlink:href") = [some s] ∧
      IsJavascriptURL (decodeAttr basicNamedRefs s) ∧
      decodeAttr basicNamedRefs s ≠ inertJavascriptUrl := by
  decide

end ZeroProxy.Htmltx
