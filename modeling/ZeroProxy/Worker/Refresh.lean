import ZeroProxy.Htmltx.MetaRefresh
import ZeroProxy.Worker.Document

/-!
# Refresh headers

The worker rewrites the URL of a `Refresh` header as the transformer rewrites that of a
refreshing `<meta>` tag, and drops a header whose URL it rejects. The headers of a streamed document
are rewritten a second time.
-/

namespace ZeroProxy.Worker

open Html Htmltx Http List Option Text Headers RefreshRule

/-- The characters that `encodeURIComponent` keeps. -/
def componentKeep (c : Char) : Bool := isAsciiAlnum c || "-_.!~*'()".toList.contains c

def encodeURIComponent : Text → Text := percentEncode componentKeep

/-- `ZP.CONTROL_PREFIX`. -/
def controlRoute : Text := "/zp/"

section Value

-- `new URL(url, base).toString()`, unless it throws.
variable (newURL : Text → Text → Option Text)

def proxiedRefreshValue (origin raw targetUrl : Text) : Text :=
  if raw.isEmpty then []
  else match find "url=" (jsLower raw) with
    | none => raw
    | some i =>
      let head := raw.take i
      let v := jsTrim (raw.drop (i + 4))
      let quoted := fun q => v.head? = some q ∧ v.getLast? = some q
      let v := if 2 ≤ v.length ∧ (quoted '"' ∨ quoted '\'') then v.tail.dropLast else v
      let v := jsTrim v
      if v.isEmpty || startsWithCI v "javascript:" then []
      else match newURL v targetUrl with
        | none => []
        | some abs =>
          if !(startsWithCI abs "http:" || startsWithCI abs "https:") then []
          else head ++ "url=" ++ origin ++ controlRoute ++ "?via=" ++ encodeURIComponent abs

/-- A value that a `Headers` object holds. -/
structure HeaderValue where
  /-- The value. -/
  text : Text
  /-- It is one of bytes. -/
  valid : isHeaderValue text
  /-- It has no white space around it. -/
  normal : Http.normalize text = text

variable (o : ProxyOrigin) (targetUrl : Text)

def headerTarget (raw : Text) : Option Text :=
  let v := jsTrim (stripQuotes (jsTrim raw))
  if v.isEmpty || startsWithCI v "javascript:" then none
  else (newURL v targetUrl).filter fun abs =>
    startsWithCI abs "http:" || startsWithCI abs "https:"

/-- The rule of `proxiedRefreshValue`. -/
def headerRule : RefreshRule where
  read := id
  write := id
  target := headerTarget newURL targetUrl
  address := viaAddress (o.text ++ controlRoute) componentKeep
  drops := true

theorem lawful_headerRule : (headerRule newURL o targetUrl).Lawful where
  reads {w i} hi :=
    ⟨w.take i, (take_append_drop i w).symm, isMark_of_firstMark hi, fun _ => rfl⟩
  head := viaAddress_head (by
    obtain ⟨c, t, ht, hc⟩ := o.exists_cons
    exact ⟨c, t ++ controlRoute, by rw [ht]; rfl, hc⟩)
  unmarked := viaAddress_unmarked (by
    rw [mem_append, not_or]
    exact ⟨o.not_mem (by decide), by decide⟩) (by decide)

theorem HeaderValue.jsLower_eq (v : HeaderValue) : jsLower v.text = v.text.map Char.toLower := by
  refine jsLower_eq_map fun c hc => ?_
  have hbyte := all_eq_true.1 v.valid c hc
  simp only [Bool.and_eq_true] at hbyte
  constructor
  · rintro rfl
    exact absurd hbyte.2 (by decide)
  · rintro rfl
    exact absurd hbyte.2 (by decide)

theorem stripQuotes_eq (v : Text) :
    (if 2 ≤ v.length ∧ ((v.head? = some '"' ∧ v.getLast? = some '"') ∨
      (v.head? = some '\'' ∧ v.getLast? = some '\'')) then v.tail.dropLast else v) =
      stripQuotes v := by
  refine if_congr ?_ rfl rfl
  tauto

theorem proxied_eq_headerTarget (head raw : Text) : (let v := jsTrim (stripQuotes (jsTrim raw))
      if v.isEmpty || startsWithCI v "javascript:" then []
      else match newURL v targetUrl with
        | none => []
        | some abs => if !(startsWithCI abs "http:" || startsWithCI abs "https:") then []
          else head ++ "url=".toList ++ o.text ++ controlRoute ++ "?via=".toList ++
            encodeURIComponent abs) =
      ((headerTarget newURL targetUrl raw).map fun x =>
        head ++ (mark ++ (headerRule newURL o targetUrl).address x)).getD [] := by
  rw [headerTarget]
  generalize jsTrim (stripQuotes (jsTrim raw)) = v
  dsimp only
  split_ifs with hrej
  · rfl
  cases newURL v targetUrl with
  | none => rfl
  | some abs =>
    dsimp only
    rw [filter_some]
    cases startsWithCI abs "http:" || startsWithCI abs "https:" with
    | false => rfl
    | true =>
      simp [headerRule, viaAddress, mark, encodeURIComponent, append_assoc]

theorem proxiedRefreshValue_eq (v : HeaderValue) (hv : v.text ≠ []) :
    proxiedRefreshValue newURL o.text v.text targetUrl =
      ((headerRule newURL o targetUrl).emitted v.text).getD [] := by
  have hne : ¬ v.text.isEmpty := fun h => hv (isEmpty_iff.1 h)
  rw [proxiedRefreshValue, if_neg hne, v.jsLower_eq, RefreshRule.emitted, firstMark, mark]
  cases find "url=" (v.text.map Char.toLower) with
  | none => rfl
  | some i =>
    dsimp only
    rw [stripQuotes_eq]
    refine (proxied_eq_headerTarget newURL o targetUrl _ _).trans ?_
    rw [show (headerRule newURL o targetUrl).target = headerTarget newURL targetUrl from rfl]
    cases headerTarget newURL targetUrl (v.text.drop (i + 4)) with
    | none | some x => rfl

theorem emitted_headerRule_ne_nil (v : HeaderValue) (hv : v.text ≠ []) :
    (headerRule newURL o targetUrl).emitted v.text ≠ some [] := by
  rw [RefreshRule.emitted]
  cases firstMark v.text with
  | none => exact fun h => hv (some.inj h)
  | some i =>
    dsimp only
    cases (headerRule newURL o targetUrl).target (v.text.drop (i + 4)) with
    | none =>
      intro h
      cases h
    | some x =>
      intro h
      have hnil := (append_eq_nil_iff.1 (some.inj h)).2
      exact absurd (append_eq_nil_iff.1 hnil).1 (by decide)

end Value

/-! ## The emitted header -/

section Emitted

variable (env : Env) (h : Headers) (req : Option Request) (targetUrl : Text)

theorem values_refresh_applyZPSecurityHeaders : let raw := (h.get "Refresh").getD []
    let next := env.proxiedRefreshValue raw targetUrl
    (applyZPSecurityHeaders env h req targetUrl).values "Refresh" =
      if raw.isEmpty || targetUrl.isEmpty || next.isEmpty then [] else [Http.normalize next] := by
  dsimp only
  rw [applyZPSecurityHeaders, values_applyCORS (by decide), values_set_of_ne (by decide),
    values_set_of_ne (by decide)]
  by_cases hskip : (((h.get "Refresh").getD []).isEmpty || targetUrl.isEmpty ||
      (env.proxiedRefreshValue ((h.get "Refresh").getD []) targetUrl).isEmpty)
  · rw [if_pos hskip, if_pos hskip, values_set_of_ne (by decide), stripHeaders]
    exact values_foldl_delete_of_mem _ (by decide)
  · rw [if_neg hskip, if_neg hskip, values_set_self]

end Emitted

theorem head?_of_normalize {s : Text} (h : Http.normalize s = s) :
    s.head?.any isHttpWhitespace = false := by
  rw [← h, Http.normalize, head?_stripBoth]
  cases hc : (s.dropWhile isHttpWhitespace).head? with
  | none => rfl
  | some c => exact head?_dropWhile_eq_false hc

section Header

variable (newURL : Text → Text → Option Text) (o : ProxyOrigin) (targetUrl : Text)

theorem getLast?_address (x : Text) :
    ((headerRule newURL o targetUrl).address x).getLast?.any isHttpWhitespace = false := by
  have hne : "?via=".toList ++ percentEncode componentKeep x ≠ [] :=
    append_ne_nil_of_left_ne_nil (by decide) _
  simp only [headerRule, viaAddress]
  rw [append_assoc, getLast?_append_of_ne_nil _ hne]
  cases hlast : ("?via=" ++ percentEncode componentKeep x).getLast? with
  | none => rfl
  | some c =>
    have hmem := mem_of_getLast? hlast
    refine Bool.eq_false_iff.2 fun hws => ?_
    simp only [any_some, isHttpWhitespace, Bool.or_eq_true, beq_iff_eq] at hws
    have hno {c : Char} (hvia : c ∉ "?via=".toList) (hkeep : componentKeep c = false)
        (halnum : isAsciiAlnum c = false) (hpercent : c ≠ '%')
        (h : c ∈ "?via=" ++ percentEncode componentKeep x) : False :=
      (mem_append.1 h).elim hvia (not_mem_percentEncode hkeep halnum hpercent x)
    rcases hws with ((rfl | rfl) | rfl) | rfl
    all_goals exact hno (by decide) (by decide) (by decide) (by decide) hmem

theorem normalize_emitted (v : HeaderValue) {e : Text}
    (he : (headerRule newURL o targetUrl).emitted v.text = some e) : Http.normalize e = e := by
  rcases RefreshRule.emitted_cases he with rfl | ⟨i, x, rfl⟩
  · exact v.normal
  have hne : (headerRule newURL o targetUrl).address x ≠ [] := by
    obtain ⟨c, t, hc, _⟩ := (lawful_headerRule newURL o targetUrl).head x
    rw [hc]
    exact cons_ne_nil c t
  refine stripBoth_eq_self ?_ ?_
  · -- The value begins as it did, or with the mark.
    change (v.text.take i ++ (mark ++ _)).head?.any isHttpWhitespace = false
    cases i with
    | zero => rfl
    | succ i =>
      have hhead := head?_of_normalize v.normal
      cases htext : v.text with
      | nil => rfl
      | cons c t =>
        rw [htext] at hhead
        exact hhead
  · change (v.text.take i ++ (mark ++ _)).getLast?.any isHttpWhitespace = false
    rw [← append_assoc, getLast?_append_of_ne_nil _ hne]
    exact getLast?_address newURL o targetUrl x

variable (env : Env) (resolve : Text → Option Text) (v : HeaderValue)

theorem get_refresh_applyZPSecurityHeaders {h : Headers} (req : Option Request)
    (hv : h.get "Refresh" = some v.text) (hne : v.text ≠ []) (htarget : targetUrl ≠ []) :
    (applyZPSecurityHeaders
      { env with proxiedRefreshValue := proxiedRefreshValue newURL o.text } h req targetUrl).get
      "Refresh" = (headerRule newURL o targetUrl).emitted v.text := by
  have hvalues := values_refresh_applyZPSecurityHeaders
    { env with proxiedRefreshValue := fun raw url => proxiedRefreshValue newURL o.text raw url }
    h req targetUrl
  dsimp only at hvalues
  have hfalse {s : Text} (hs : s ≠ []) : s.isEmpty = false :=
    Bool.eq_false_iff.2 fun h => hs (isEmpty_iff.1 h)
  rw [hv, getD_some, proxiedRefreshValue_eq newURL o targetUrl v hne, hfalse hne,
    hfalse htarget, Bool.false_or, Bool.false_or] at hvalues
  cases he : (headerRule newURL o targetUrl).emitted v.text with
  | none =>
    rw [he] at hvalues
    exact get_eq_none hvalues
  | some e =>
    have hne' : e ≠ [] := fun h => emitted_headerRule_ne_nil newURL o targetUrl v hne (h ▸ he)
    rw [he, getD_some, hfalse hne', normalize_emitted newURL o targetUrl v he] at hvalues
    exact get_eq_some hvalues

/-- The characters of an address are visible ones of ASCII. -/
theorem toNat_of_mem_address {x : Text} {c : Char}
    (hc : c ∈ (headerRule newURL o targetUrl).address x) : 0x20 < c.toNat ∧ c.toNat < 0x7f := by
  have hlist {l : Text} (hl : l.all fun c => decide (0x20 < c.toNat ∧ c.toNat < 0x7f))
      (h : c ∈ l) : 0x20 < c.toNat ∧ c.toNat < 0x7f := of_decide_eq_true (all_eq_true.1 hl c h)
  have halnum (h : isAsciiAlnum c) : 0x20 < c.toNat ∧ c.toNat < 0x7f := by
    simp only [isAsciiAlnum, isAsciiAlpha, isAsciiDigit, Bool.or_eq_true, Bool.and_eq_true,
      decide_eq_true_eq] at h
    omega
  rcases mem_append.1 hc with hc | hc
  · rcases mem_append.1 hc with hc | hc
    · rcases mem_append.1 hc with hc | hc
      · have := all_eq_true.1 o.plain c hc
        rw [isOriginChar, Bool.or_eq_true, contains_iff_mem] at this
        exact this.elim halnum (hlist (by decide))
      · exact hlist (by decide) hc
    · exact hlist (by decide) hc
  · by_cases hkeep : componentKeep c
    · rw [componentKeep, Bool.or_eq_true, contains_iff_mem] at hkeep
      exact hkeep.elim halnum (hlist (by decide))
    by_cases hc' : isAsciiAlnum c
    · exact halnum hc'
    by_cases hpercent : c = '%'
    · exact hpercent ▸ by decide
    · exact absurd hc (not_mem_percentEncode (Bool.eq_false_iff.2 hkeep) (Bool.eq_false_iff.2 hc')
        hpercent x)

theorem isHeaderValue_emitted {e : Text}
    (he : (headerRule newURL o targetUrl).emitted v.text = some e) : isHeaderValue e := by
  have hchar {c : Char} (h : 0x20 < c.toNat ∧ c.toNat < 0x7f) :
      (c != '\x00' && c != '\n' && c != '\r' && decide (c.toNat < 0x100)) := by
    simp only [Bool.and_eq_true, bne_iff_ne, decide_eq_true_eq]
    refine ⟨⟨⟨?_, ?_⟩, ?_⟩, by omega⟩
    all_goals
      rintro rfl
      revert h
      decide
  rcases RefreshRule.emitted_cases he with rfl | ⟨i, x, rfl⟩
  · exact v.valid
  refine all_eq_true.2 fun c hc => ?_
  rcases mem_append.1 hc with hc | hc
  · exact all_eq_true.1 v.valid c (mem_of_mem_take hc)
  rcases mem_append.1 hc with hc | hc
  · have hmark : mark.all fun c => decide (0x20 < c.toNat ∧ c.toNat < 0x7f) := by decide
    exact hchar (of_decide_eq_true (all_eq_true.1 hmark c hc))
  · exact hchar (toNat_of_mem_address newURL o targetUrl hc)

/-- What is emitted is a header value again. -/
def emittedValue {e : Text} (he : (headerRule newURL o targetUrl).emitted v.text = some e) :
    HeaderValue :=
  ⟨e, isHeaderValue_emitted newURL o targetUrl v he, normalize_emitted newURL o targetUrl v he⟩

/-! ## The document that is served -/

/-- The worker that rewrites as the source does. -/
def refreshing : Env := { env with proxiedRefreshValue := proxiedRefreshValue newURL o.text }

/-- The `Refresh` header of a document navigates to the proxied address of its target, if at
    all. -/
def HeaderContained (served : Headers) : Prop :=
  ∀ s t, refreshUrl v.text = some s → resolve s = some t →
    ∀ e, served.get "Refresh" = some e → ∀ s', refreshUrl e = some s' →
      (headerRule newURL o targetUrl).Serves resolve s t s'

variable (t : Transformer) (r : Response)

/-- The value is faithful, rewritten once or twice; or no document is served, or none to resolve it
    against. -/
def HeaderFaithful : Prop :=
  targetUrl = [] ∨ Malformed (refreshing newURL o env) t r targetUrl ∨
    (Streams (refreshing newURL o env) t r targetUrl →
      (headerRule newURL o targetUrl).twice.Faithful resolve v.text) ∧
    (¬ Streams (refreshing newURL o env) t r targetUrl →
      (headerRule newURL o targetUrl).Faithful resolve v.text)

variable {newURL o targetUrl env resolve v t r}

theorem headerContained_of_none {served : Headers} (h : served.values "Refresh" = []) :
    HeaderContained newURL o targetUrl resolve v served := by
  intro s t _ _ e he
  rw [get_eq_none h] at he
  cases he

theorem values_refresh_eq_nil {h : Headers} {req : Option Request}
    (hempty : h.get "Refresh" = none ∨ targetUrl = []) :
    (applyZPSecurityHeaders (refreshing newURL o env) h req targetUrl).values "Refresh" = [] := by
  have hvalues := values_refresh_applyZPSecurityHeaders (refreshing newURL o env) h req targetUrl
  dsimp only at hvalues
  rw [hvalues, if_pos]
  rcases hempty with hnone | rfl
  · rw [hnone]
    rfl
  · simp

/-- The header after a second pass. -/
theorem get_refresh_twice {h h' : Headers} {req req' : Option Request}
    (hv : h.get "Refresh" = some v.text) (hne : v.text ≠ []) (htarget : targetUrl ≠ [])
    (hh : h'.values "Refresh" =
      (applyZPSecurityHeaders (refreshing newURL o env) h req targetUrl).values "Refresh") :
    (applyZPSecurityHeaders (refreshing newURL o env) h' req' targetUrl).get "Refresh" =
      (headerRule newURL o targetUrl).twice.emitted v.text := by
  have hfirst := get_refresh_applyZPSecurityHeaders newURL o targetUrl env v req hv hne htarget
  rw [← RefreshRule.emitted_twice rfl rfl]
  have hget : h'.get "Refresh" = (headerRule newURL o targetUrl).emitted v.text :=
    (get_congr hh).trans hfirst
  cases he : (headerRule newURL o targetUrl).emitted v.text with
  | none =>
    rw [he] at hget
    exact get_eq_none (values_refresh_eq_nil (.inl hget))
  | some e =>
    rw [he] at hget
    have hne' : e ≠ [] := fun h => emitted_headerRule_ne_nil newURL o targetUrl v hne (h ▸ he)
    exact get_refresh_applyZPSecurityHeaders newURL o targetUrl env
      (emittedValue newURL o targetUrl v he) req' hget hne' htarget

theorem headerContained_iff_headerFaithful {req : Option Request} {up : Kernel.Upstream}
    {r' : Response} (hd : Delivered (refreshing newURL o env) req up r targetUrl)
    (hs : answer (transformDocumentResponse (refreshing newURL o env) t r targetUrl) = .response r')
    (hv : Kernel.received up "Refresh" = some v.text) :
    HeaderContained newURL o targetUrl resolve v r'.headers ↔
      HeaderFaithful newURL o targetUrl env resolve v t r := by
  obtain ⟨n, r₀, -, hr₀, -, rfl⟩ := hd
  have hget : r₀.headers.get "Refresh" = some v.text := by
    rw [← hv]
    exact get_congr ((Kernel.kernelResponse_spec hr₀).2.2.2 _ (by decide))
  by_cases hm : Malformed (refreshing newURL o env) t (addCSP (refreshing newURL o env) r₀ req targetUrl)
      targetUrl
  · refine iff_of_true (headerContained_of_none ?_) (.inr (.inl hm))
    rw [Malformed] at hm
    rw [hm] at hs
    exact (values_answer hs (by decide)).trans rfl
  by_cases htarget : targetUrl = []
  · refine iff_of_true (headerContained_of_none ?_) (.inl htarget)
    cases headed_answer hs with
    | own _ hm' => exact absurd hm' hm
    | once hkept _ => exact (hkept _ (by decide)).trans (values_refresh_eq_nil (.inr htarget))
    | twice h _ hout _ => exact (hout _ (by decide)).trans (values_refresh_eq_nil (.inr htarget))
  rw [HeaderFaithful, or_iff_right htarget, or_iff_right hm]
  by_cases hne : v.text = []
  · have hnone : refreshUrl v.text = none := by rw [hne]; rfl
    have hfaithful (ρ : RefreshRule) (hread : ρ.read = id) : ρ.Faithful resolve v.text := by
      intro s t hs
      rw [hread, id_eq, hnone] at hs
      cases hs
    refine iff_of_true (fun s t hs => ?_) ⟨fun _ => hfaithful _ rfl, fun _ => hfaithful _ rfl⟩
    rw [hnone] at hs
    cases hs
  have hfirst := get_refresh_applyZPSecurityHeaders newURL o targetUrl env v req hget hne htarget
  cases headed_answer hs with
  | own _ hm' => exact absurd hm' hm
  | once hkept hno =>
    rw [forall_prop_of_false hno, true_and, forall_prop_of_true hno,
      ← (lawful_headerRule newURL o targetUrl).contained_iff]
    have hout : r'.headers.get "Refresh" = (headerRule newURL o targetUrl).emitted v.text :=
      (Headers.get_congr (hkept _ (by decide))).trans hfirst
    rw [HeaderContained, hout]
    rfl
  | twice h hkept hout hstreams =>
    rw [forall_prop_of_true hstreams, forall_prop_of_false (not_not.2 hstreams), and_true,
      ← (lawful_headerRule newURL o targetUrl).twice.contained_iff]
    have hsecond : r'.headers.get "Refresh" = (headerRule newURL o targetUrl).twice.emitted v.text :=
      (Headers.get_congr (hout _ (by decide))).trans
        (get_refresh_twice hget hne htarget (hkept _ (by decide)))
    rw [HeaderContained, hsecond]
    rfl

end Header

/-! ## Headers and tags -/

/-- A refresh stays in the proxy when its first `url=` is where a browser looks for it and is
    followed by what a browser reads, or it is dropped, or it needed no rewriting; and only
    then. This holds for the headers of every document that is served, however URLs are parsed, and
    for `<meta>` tags. In the header of a streamed document the target is that of a second pass. -/
theorem contained_iff_faithful (T : PlainRefs) (newURL : Text → Text → Option Text)
    (o : ProxyOrigin) (env : Env) (t : Transformer) (launcher : Served) (req : Option Request)
    (route : Route) (resolve : Text → Option Text) {up : Kernel.Upstream} {r r' : Response} {u : Text}
    (hf : fetchDocument (refreshing newURL o env) req route = .upstream up r u)
    (hs : proxyDocument (refreshing newURL o env) t launcher req route = .response r') :
    (∀ v : HeaderValue, Kernel.received up "Refresh" = some v.text →
      (HeaderContained newURL o u resolve v r'.headers ↔
        HeaderFaithful newURL o u env resolve v t r)) ∧
    ∀ el, MetaContained T o u resolve el ↔ MetaFaithful T o u resolve el := by
  refine ⟨fun v hv => ?_, fun _ => metaContained_iff_metaFaithful T o u resolve⟩
  rw [proxyDocument_of_upstream hf] at hs
  exact headerContained_iff_headerFaithful (Delivered.of_fetchDocument hf) hs hv

def plainProxy : ProxyOrigin := ⟨"https://proxy.test", by decide, by decide⟩

/-- A page with a `Refresh` header: XHTML, which is not streamed, or HTML. -/
def refreshPage (type : Text) (v : HeaderValue) : Kernel.Upstream where
  status := 200
  reason := "OK"
  headers := [("Content-Type", type), ("Refresh", v.text)]
  body := ⟨[[60, 104, 116, 109, 108, 47, 62]], false⟩
  isHead := false

/-- What is served for a page of `shop.test`. -/
def servedPage (type : Text) (v : HeaderValue) : Served :=
  proxyDocument (refreshing (fun s _ => some s) plainProxy (singleServer (refreshPage type v)))
    idleTransformer .networkError none (.entry "https://shop.test/" .accepted)

/-- A refresh whose URL is not introduced by `url=`. -/
def bareUrl : HeaderValue := ⟨"0; https://evil.test/", by decide, by decide⟩

/-- The same refresh in a tag. -/
def bareTag : Element := ⟨"meta", [⟨"http-equiv", "refresh", false⟩,
    ⟨"content", "0; https://evil.test/", false⟩]⟩

def absoluteOnly (s : Text) : Option Text := if isHttpUrl s then some s else none

theorem not_serves_evil {ρ : RefreshRule} {start : Text} {keep : Char → Bool}
    (hρ : ρ.address = viaAddress start keep) (hstart : start.take 9 = "https://p")
    (t : Text) : ¬ ρ.Serves absoluteOnly "https://evil.test/" t "https://evil.test/" := by
  rintro (⟨hstays, _⟩ | ⟨x, hx, _⟩)
  · rcases hstays with h | h
    · exact absurd h (by decide)
    · exact absurd h (by decide)
  have hlen : 9 ≤ start.length := by
    have := congrArg length hstart
    rw [length_take] at this
    have h9 : "https://p".toList.length = 9 := rfl
    omega
  have htake := congrArg (take 9) hx
  rw [hρ, viaAddress, append_assoc, take_append_of_le_length hlen, hstart] at htake
  exact absurd htake (by decide)

/-- A refresh that both sides read alike. -/
def nextUrl : HeaderValue := ⟨"0; url=https://shop.test/next", by decide, by decide⟩

/-- The refresh of a page that is not streamed stays in the proxy. -/
theorem next_url_contained : ∃ r', servedPage "application/xhtml+xml" nextUrl = .response r' ∧
    HeaderContained (fun s _ => some s) plainProxy "https://shop.test/" absoluteOnly nextUrl
      r'.headers := by
  have hf : fetchDocument (refreshing (fun s _ => some s) plainProxy
      (singleServer (refreshPage "application/xhtml+xml" nextUrl))) none
      (.entry "https://shop.test/" .accepted) = .upstream _ _ _ := rfl
  have hs : servedPage "application/xhtml+xml" nextUrl = .response _ := rfl
  refine ⟨_, hs, ((contained_iff_faithful basicPlainRefs _ _ _ _ _ _ _ _ hf hs).1 nextUrl rfl).2
    (.inr (.inr ⟨fun hstreams => ?_, fun _ s t hurl ht => .inl ?_⟩))⟩
  · obtain ⟨-, out, hout⟩ := hstreams
    cases hout
  · have hread : refreshUrl nextUrl.text = some "https://shop.test/next" := by decide
    cases hread.symm.trans hurl
    exact ⟨"https://shop.test/next", ⟨7 - 4, by decide, by decide, by decide⟩, _, rfl, ht⟩

/-- Neither rewriter touches a URL without `url=`, and the browser leaves the proxy. -/
theorem bare_url_not_contained :
    (∃ r', servedPage "application/xhtml+xml" bareUrl = .response r' ∧
      ¬ HeaderContained (fun s _ => some s) plainProxy "https://shop.test/" absoluteOnly bareUrl
        r'.headers) ∧
    ¬ MetaContained basicPlainRefs plainProxy "https://shop.test/" absoluteOnly bareTag := by
  have hurl : refreshUrl bareUrl.text = some "https://evil.test/" := by decide
  constructor
  · refine ⟨_, rfl, fun hc => ?_⟩
    exact not_serves_evil rfl rfl "https://evil.test/" (hc _ _ hurl (by decide) bareUrl.text rfl _ hurl)
  intro hc
  have hsame : (rewriteRefresh ⟨"https://shop.test/", plainProxy.text⟩
      "https://shop.test/" bareTag).emitted "content" = some bareUrl.text := by decide
  have hread : refreshUrl (decodeAttr basicPlainRefs.toNamedRefs bareUrl.text) =
      some "https://evil.test/" := by decide
  exact not_serves_evil rfl (by decide) "https://evil.test/"
    (hc ⟨rfl, _, rfl, by decide⟩ _ rfl _ _ hread (by decide) _ hsame _ hread)

end ZeroProxy.Worker
