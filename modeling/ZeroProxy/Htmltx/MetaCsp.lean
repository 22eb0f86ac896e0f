import ZeroProxy.Csp.Policy

/-!
# The policies of `<meta>` elements

A document keeps the policy of its `<meta http-equiv="Content-Security-Policy">` in part: the
directives that could stop the proxy's own scripts, connections and frames gain the sources of
those. A nonce, a hash or `'strict-dynamic'` among the author's sources still stops them. The page
has a copy of the filter, for the elements it makes itself; the last part compares the two.
-/

namespace ZeroProxy.Htmltx.MetaCsp

open Csp List Text Directive

def ttPolicyName : Text := "zp-internal"

def noneSource : Text := "'none'"

def selfSource : Text := "'self'"

/-- The directives the parts of a policy hold. -/
def segments (policy : Text) : List Directive :=
  (split (· == ';') policy).filterMap (read isRustWhitespace)

/-- `isNone` recognises `'none'`. -/
def trustedTypesDirective (isNone : Text → Bool) (d : Directive) : Option Directive :=
  if d.name = "require-trusted-types-for" then some d
  else if d.name = "trusted-types" then
    if d.value = [] || d.value.any isNone then some ⟨d.name, [ttPolicyName]⟩
    else if d.value.any (fun t => t == "*" || t == ttPolicyName) then some d
    else some ⟨d.name, d.value ++ [ttPolicyName]⟩
  else none

def trustedTypesDirectives (policy : Text) : List Directive :=
  (segments policy).filterMap (trustedTypesDirective (eqCI · noneSource))

def infraSources (name : Text) : List Text :=
  if name ∈ texts ["script-src", "script-src-elem", "script-src-attr"] then
    texts ["'self'", "'unsafe-inline'", "'unsafe-eval'", "'wasm-unsafe-eval'", "blob:"]
  else if name = "connect-src" then texts ["'self'"]
  else if name = "worker-src" then texts ["'self'", "blob:"]
  else if name ∈ texts ["child-src", "frame-src"] then texts ["'self'", "blob:", "data:"]
  else if name ∈ texts ["style-src", "style-src-elem", "style-src-attr"] then
    texts ["'self'", "'unsafe-inline'", "blob:", "data:"]
  else if name = "default-src" then
    texts ["'self'", "'unsafe-inline'", "'unsafe-eval'", "'wasm-unsafe-eval'", "blob:", "data:"]
  else []

def resource : List Text :=
  texts ["img-src", "media-src", "font-src", "object-src", "manifest-src", "prefetch-src",
    "form-action", "base-uri"]

def addMissing (sources : List Text) (extra : Text) : List Text :=
  if extra ∈ sources then sources else sources ++ [extra]

/-- The sources of a plumbing directive: `'none'` cannot stand beside others. -/
def infraValue (siteFrameSource : Text) (d : Directive) : List Text :=
  let sources := (infraSources d.name).foldl addMissing (d.value.filter (· != noneSource))
  if siteFrameSource ≠ [] ∧ d.name ∈ texts ["frame-src", "child-src"] then
    addMissing sources siteFrameSource
  else sources

def filterDirective (siteFrameSource : Text) (d : Directive) : Option Directive :=
  if d.value = [] then none
  else if infraSources d.name ≠ [] then some ⟨d.name, infraValue siteFrameSource d⟩
  else if d.name ∈ resource then
    some ⟨d.name, if noneSource ∈ d.value then [noneSource] else addMissing d.value selfSource⟩
  else none

def filterMetaCspWith (content siteFrameSource : Text) : Text :=
  "; ".toList.intercalate ((trustedTypesDirectives content ++
    (segments content).filterMap (filterDirective siteFrameSource)).map text)

/-- A host source for frames, or the empty text. -/
structure SiteFrameSource where
  source : Text
  part : source.all fun c => !isAsciiWhitespace c && c != ';'
  host : isAscii source && clear true [source]

/-! ## The filtered policy -/

variable {content : Text} {site : SiteFrameSource} {d e : Directive} {w : Text}

theorem mem_addMissing {l : List Text} {x : Text} : w ∈ addMissing l x ↔ w ∈ l ∨ w = x := by
  grind [addMissing]

theorem mem_foldl_addMissing {xs l : List Text} : w ∈ xs.foldl addMissing l ↔ w ∈ l ∨ w ∈ xs := by
  induction xs generalizing l with
  | nil => simp
  | cons x xs ih => rw [foldl_cons, ih, mem_addMissing, mem_cons, or_assoc]

/-- The sources the filter documents for a directive. -/
def plumbing (site : Text) (name : Text) : List Text :=
  (if infraSources name = [] then [selfSource] else infraSources name) ++
    if site ≠ [] ∧ name ∈ texts ["frame-src", "child-src"] then [site] else []

/-- The sources of the plumbing are parts of directives, and none stops inline scripts. -/
theorem plumbing_all (site : SiteFrameSource) (n : Text) :
    (plumbing site.source n).all fun w => isPart w && isAscii w && clear true [w] := by
  rw [plumbing, all_append, Bool.and_eq_true]
  constructor
  · split
    · decide
    · unfold infraSources
      split_ifs <;> decide
  · split
    · next h =>
      have hpart : isPart site.source := by simp [isPart, h.1, site.part]
      simpa [hpart] using site.host
    · rfl

/-- A directive that is kept, as it is kept. -/
def filtered (f : Text) (d : Directive) : Directive where
  name := d.name
  value := if infraSources d.name ≠ [] then infraValue f d
    else if noneSource ∈ d.value then [noneSource] else addMissing d.value selfSource

def isKept (name : Text) : Prop := infraSources name ≠ [] ∨ name ∈ resource

instance : DecidablePred isKept := fun _ => inferInstanceAs (Decidable (_ ∨ _))

theorem isAscii_of_isKept {n : Text} (h : isKept n) : isAscii n := by
  have hall {l : List Text} (hn : n ∈ l) (hl : l.all isAscii) : isAscii n :=
    all_eq_true.1 hl n hn
  rcases h with h | h
  · unfold infraSources at h
    split_ifs at h with h1 h2 h3 h4 h5 h6
    · exact hall h1 (by decide)
    · exact h2 ▸ by decide
    · exact h3 ▸ by decide
    · exact hall h4 (by decide)
    · exact hall h5 (by decide)
    · exact h6 ▸ by decide
    · exact absurd rfl h
  · exact hall h (by decide)

theorem filterDirective_of_kept (f : Text) (h : isKept d.name) :
    filterDirective f d = if d.value = [] then none else some (filtered f d) := by
  rw [filterDirective, filtered]
  split
  · rfl
  · by_cases hinfra : infraSources d.name ≠ []
    · rw [if_pos hinfra, if_pos hinfra]
    · rw [if_neg hinfra, if_neg hinfra, if_pos (h.resolve_left hinfra)]

variable {f : Text}

theorem kept_of_filterDirective (h : filterDirective f d = some e) :
    isKept d.name ∧ e = filtered f d := by
  have hkept : isKept d.name := by
    rw [filterDirective] at h
    split_ifs at h with hv hinfra hres
    · exact .inl hinfra
    all_goals exact .inr hres
  rw [filterDirective_of_kept f hkept] at h
  split at h <;> cases h
  exact ⟨hkept, rfl⟩

theorem mem_infraValue (h : infraSources d.name ≠ []) : w ∈ infraValue f d ↔
    w ∈ d.value ∧ w ≠ noneSource ∨ w ∈ plumbing f d.name := by
  rw [infraValue, plumbing]
  split <;> simp [mem_addMissing, mem_foldl_addMissing, or_assoc]

theorem mem_filtered (h : w ∈ (filtered f d).value) :
    w ∈ d.value ∨ w = noneSource ∨ w ∈ plumbing f d.name := by
  rw [filtered] at h
  split_ifs at h with hinfra hnone
  · exact ((mem_infraValue hinfra).1 h).imp And.left .inr
  · exact .inr (.inl (mem_singleton.1 h))
  · rw [plumbing, if_pos (not_not.1 hinfra)]
    exact (mem_addMissing.1 h).imp id fun (h : w = _) =>
      .inr (mem_append_left _ (h ▸ .head _))

theorem of_trustedTypesDirective {isNone : Text → Bool}
    (h : trustedTypesDirective isNone d = some e) :
    e.name = d.name ∧ ¬isKept d.name ∧ ∀ w ∈ e.value, w ∈ d.value ∨ w = ttPolicyName := by
  rw [trustedTypesDirective] at h
  have hrequire : ¬isKept "require-trusted-types-for" := by decide
  have htypes : ¬isKept "trusted-types" := by decide
  split_ifs at h with hname hname <;> cases h <;> simp_all

theorem clean_of_mem_segments (h : d ∈ segments content) : d.Clean := by
  obtain ⟨s, hs, hd⟩ := mem_filterMap.1 h
  exact read_clean (fun _ => isRustWhitespace_of_ascii) isRustWhitespace_toLower
    (fun hmem => by simpa using (mem_of_mem_split hs _ hmem).1) hd

/-- The directives of the filtered policy, as a document reads them. -/
theorem parse_filterMetaCspWith (content : Text) (site : SiteFrameSource) :
    parse (filterMetaCspWith content site.source) = (trustedTypesDirectives content ++
      (segments content).filterMap (filterDirective site.source)).filter ascii := by
  refine parse_texts fun e he => ?_
  rcases mem_append.1 he with h | h <;> obtain ⟨d, hd, he⟩ := mem_filterMap.1 h
  · obtain ⟨hname, -, hvalue⟩ := of_trustedTypesDirective he
    exact (clean_of_mem_segments hd).of_value hname fun w hw =>
      (hvalue w hw).imp_right fun (h : w = _) => h ▸ by decide
  obtain ⟨-, rfl⟩ := kept_of_filterDirective he
  refine (clean_of_mem_segments hd).of_value rfl fun w hw => (mem_filtered hw).imp_right ?_
  rintro (rfl | hw)
  · decide
  · have := all_eq_true.1 (plumbing_all site d.name) w hw
    simp_all

/-- The author's directives, as the filter reads them: the ones without a source are dropped, and
    a document drops those that are not of ASCII characters after the filter. -/
def authored (content : Text) : List Directive :=
  (segments content).filter fun d => d.value ≠ [] ∧
    (d.ascii ∨ infraSources d.name = [] ∧ noneSource ∈ d.value)

theorem all_filtered (site : SiteFrameSource) (hinfra : infraSources d.name ≠ [])
    {p : Text → Bool} (hnone : p noneSource) (h : ∀ w ∈ plumbing site.source d.name, p w) :
    (filtered site.source d).value.all p = d.value.all p := by
  rw [Bool.eq_iff_iff, all_eq_true, all_eq_true, filtered]
  rw [if_pos hinfra]
  refine ⟨fun h' w hw => ?_, fun h' w hw => ?_⟩
  · by_cases hw' : w = noneSource
    · exact hw' ▸ hnone
    · exact h' w ((mem_infraValue hinfra).2 (.inl ⟨hw, hw'⟩))
  · exact ((mem_infraValue hinfra).1 hw).elim (fun hw => h' w hw.1) (h w)

theorem ascii_filtered (hn : isKept d.name) : (filtered site.source d).ascii ↔
    d.ascii ∨ infraSources d.name = [] ∧ noneSource ∈ d.value := by
  have hplumbing := all_eq_true.1 (plumbing_all site d.name)
  by_cases hinfra : infraSources d.name ≠ []
  · have hall := all_filtered site (p := isAscii) hinfra (by decide)
      fun w hw => by simp_all
    rw [ascii, all_cons, hall]
    simp [hinfra, ascii, filtered]
  have hname := isAscii_of_isKept hn
  have hself : isAscii selfSource := by decide
  have hnoneAscii : isAscii noneSource := by decide
  rw [not_not] at hinfra
  by_cases hnone : noneSource ∈ d.value
  · simp [filtered, ascii, hinfra, hnone, hname, hnoneAscii]
  · simp [filtered, ascii, hinfra, hnone, mem_addMissing, or_imp, hself, forall_and]

theorem lookup_filtered {n : Text} (hn : isKept n) :
    lookup (parse (filterMetaCspWith content site.source)) n =
      (lookup (authored content) n).map (filtered site.source) := by
  rw [parse_filterMetaCspWith, filter_append, lookup_append_of_forall_ne,
    filter_filterMap, authored]
  · refine lookup_filterMap (fun d e h => ?_) (fun d hd => ?_) _
    · rw [(kept_of_filterDirective (Option.filter_eq_some_iff.1 h).1).2, filtered]
    · subst hd
      rw [filterDirective_of_kept _ hn]
      split <;> simp_all [Option.filter_some, ascii_filtered hn]
  · intro e he hname
    obtain ⟨d, -, hd⟩ := mem_filterMap.1 (mem_of_mem_filter he)
    obtain ⟨hd, hkept, -⟩ := of_trustedTypesDirective hd
    exact hkept (hd ▸ hname ▸ hn)

theorem isKept_fallback (use : Use) : ∀ n ∈ texts use.fallback, isKept n := by
  have hall : (texts use.fallback).all fun n => decide (isKept n) := by
    cases use
    case script b => cases b <;> decide
    case resource kind => cases kind <;> decide
    all_goals decide
  exact fun n hn => of_decide_eq_true (all_eq_true.1 hall n hn)

/-- The directive that decides a use is the author's one, as it is kept. -/
theorem effective_filtered {names : List Text} (h : ∀ n ∈ names, isKept n) :
    effective (parse (filterMetaCspWith content site.source)) names =
      (effective (authored content) names).map (filtered site.source) := by
  induction names with
  | nil => rfl
  | cons n names ih =>
    rw [forall_mem_cons] at h
    rw [effective, findSome?_cons, lookup_filtered h.1, ← effective, ih h.2, effective,
      effective, findSome?_cons]
    cases lookup (authored content) n <;> rfl

/-! ## The plumbing -/

/-- What the proxy's own scripts do in a document. -/
def Plumbing (hits : Text → Bool) : Use → Prop
  | .script _ | .connect | .frame => hits selfSource
  | .worker => hits "blob:"
  | .stylesheet | .resource _ => False
  | _ => True

/-- The source a use of the plumbing rests on. -/
def needs : Use → String
  | .eval => "'unsafe-eval'"
  | .script _ | .connect | .frame => "'self'"
  | .worker => "blob:"
  | _ => "'unsafe-inline'"

/-- The inline uses, and whether they are of scripts. -/
def inlineKind : Use → Option Bool
  | .inlineScript | .scriptAttribute => some true
  | .inlineStyle | .styleAttribute => some false
  | _ => none

/-- No expression that takes the effect of `'unsafe-inline'` away stands in the author's
    directives for inline scripts and styles. -/
def Unhindered (content : Text) : Prop := ∀ use script, inlineKind use = some script →
  ∀ d, effective (authored content) (texts use.fallback) = some d → clear script d.value

variable {use : Use}

theorem needs_mem_infraSources {hits : Text → Bool} (huse : Plumbing hits use) :
    (texts use.fallback).all fun n => (infraSources n).contains (needs use).toList := by
  cases use
  case resource => cases huse
  case stylesheet => cases huse
  case script b => cases b <;> decide
  all_goals decide

theorem infraSources_subset (f : Text) (h : infraSources d.name ≠ []) :
    infraSources d.name ⊆ (filtered f d).value := by
  intro w hw
  rw [filtered]
  rw [if_pos h, mem_infraValue h, plumbing, if_neg h]
  exact .inr (mem_append_left _ hw)

theorem needs_mem (site : SiteFrameSource) {hits : Text → Bool} (huse : Plumbing hits use)
    (h : effective (authored content) (texts use.fallback) = some d) :
    (needs use).toList ∈ (filtered site.source d).value ∧ infraSources d.name ≠ [] := by
  obtain ⟨n, hn, hd⟩ := exists_of_findSome?_eq_some h
  have hmem := contains_iff_mem.1 (all_eq_true.1 (needs_mem_infraSources huse) n hn)
  rw [← (of_lookup hd).2] at hmem
  have hne := ne_nil_of_mem hmem
  exact ⟨infraSources_subset _ hne hmem, hne⟩

theorem clear_filtered (site : SiteFrameSource) (hinfra : infraSources d.name ≠ [])
    (script : Bool) :
    clear script (filtered site.source d).value = clear script d.value := by
  have hplumbing := all_eq_true.1 (plumbing_all site d.name)
  refine all_filtered site hinfra (by cases script <;> decide) fun w hw => ?_
  cases script <;> simp_all [clear]

theorem allowed_inline_iff {script : Bool} (h : inlineKind use = some script)
    (hits : Text → Bool) (site : SiteFrameSource) :
    use.allowed hits (parse (filterMetaCspWith content site.source)) ↔
      ∀ d, effective (authored content) (texts use.fallback) = some d → clear script d.value := by
  have haccepted (e : Directive) : use.accepted hits e = allowsInline script e.value := by
    cases use <;> cases h <;> rfl
  have hneeds : Plumbing hits use ∧ needs use = "'unsafe-inline'" := by
    cases use <;> cases h <;> exact ⟨trivial, rfl⟩
  rw [Use.allowed, effective_filtered (isKept_fallback use), Option.all_map, Option.all_eq_true]
  refine forall₂_congr fun d hd => ?_
  obtain ⟨hmem, hinfra⟩ := needs_mem site hneeds.1 hd
  have hany : (filtered site.source d).value.any (eqCI · "'unsafe-inline'") :=
    any_eq_true.2 ⟨_, hneeds.2 ▸ hmem, beq_self_eq_true _⟩
  rw [haccepted, allowsInline, hany, clear_filtered site hinfra, Bool.true_and]

/-- The filtered policy lets the plumbing work exactly if the author's directives for inline
    scripts and styles hold no nonce, no hash and, for scripts, no `'strict-dynamic'`. -/
theorem plumbing_iff (content : Text) (site : SiteFrameSource) : (∀ use hits, Plumbing hits use →
        use.allowed hits (parse (filterMetaCspWith content site.source))) ↔
      Unhindered content := by
  refine ⟨fun h use script hscript =>
    (allowed_inline_iff hscript (fun _ => true) site).1 (h use _ ?_), ?_⟩
  · cases use <;> trivial
  intro h use hits huse
  cases hinline : inlineKind use with
  | some script => exact (allowed_inline_iff hinline hits site).2 (h use script hinline)
  | none =>
    rw [Use.allowed, effective_filtered (isKept_fallback use), Option.all_map, Option.all_eq_true]
    intro d hd
    obtain ⟨hneeds, hinfra⟩ := needs_mem site huse hd
    have hany {p : Text → Bool} (hp : p (needs use).toList) :
        (filtered site.source d).value.any p := any_eq_true.2 ⟨_, hneeds, hp⟩
    cases use with
    | eval => exact hany (beq_self_eq_true _)
    | script inserted =>
      have hclear := (clear_filtered site hinfra true).trans (h .inlineScript true rfl d hd)
      have hstrict : (filtered site.source d).value.any isStrictDynamic = false :=
        any_eq_false.2 fun w hw => by
          have := all_eq_true.1 hclear w hw
          simp_all
      exact (if_neg (by simp [Use.strictIn, hstrict])).trans (hany huse)
    | connect | frame => exact hany huse
    | worker =>
      rw [Use.accepted_of_isRequest rfl]
      split
      · rfl
      · exact hany huse
    | stylesheet | resource kind => cases huse
    | _ => cases hinline

/-- A nonce of the author's stops every inline script of the proxy. -/
theorem nonce_stops_inlineScript : Plumbing (fun _ => true) .inlineScript ∧ Use.inlineScript.allowed
    (fun _ => true) (parse (filterMetaCspWith "script-src 'nonce-a'" [])) = false :=
  ⟨trivial, by decide⟩

/-! ## No new sources -/

/-- The author's expressions in a directive that is kept. -/
def own (f : Text) (d : Directive) : List Text :=
  if infraSources d.name = [] ∧ noneSource ∈ d.value then []
  else d.value.filter fun w => !eqCI w noneSource && !(plumbing f d.name).contains w

theorem mem_own : w ∈ own f d ↔
    w ∈ (filtered f d).value ∧ eqCI w noneSource = false ∧ w ∉ plumbing f d.name := by
  have hnone : eqCI noneSource noneSource = true := beq_self_eq_true _
  rw [own, filtered]
  by_cases hinfra : infraSources d.name = []
  · have hself : selfSource ∈ plumbing f d.name := by simp [plumbing, hinfra]
    by_cases hmem : noneSource ∈ d.value
    · simp only [hinfra, hmem, if_true, ne_eq, not_true, if_false, mem_singleton]
      exact ⟨fun h => absurd h not_mem_nil, fun h =>
        absurd (h.1 ▸ hnone) (Bool.eq_false_iff.1 h.2.1)⟩
    · simp only [hinfra, hmem, and_false, if_false, ne_eq, not_true, mem_addMissing, mem_filter,
        Bool.and_eq_true, Bool.not_eq_true', ← Bool.not_eq_true, contains_iff_mem]
      exact ⟨fun h => ⟨.inl h.1, h.2⟩, fun h => ⟨h.1.resolve_right fun e => h.2.2 (e ▸ hself), h.2⟩⟩
  · simp only [hinfra, false_and, if_false, ne_eq, not_false_iff, if_true, mem_infraValue hinfra,
      mem_filter, Bool.and_eq_true, Bool.not_eq_true', ← Bool.not_eq_true, contains_iff_mem]
    exact ⟨fun h => ⟨.inl ⟨h.1, fun e => h.2.1 (e ▸ hnone)⟩, h.2⟩, fun h =>
      ⟨(h.1.resolve_right h.2.2).1, h.2⟩⟩

/-- A request that the filtered policy allows was allowed by the author, or its source is one of
    the plumbing. -/
def NoNewSource (content : Text) (site : SiteFrameSource) (use : Use) : Prop :=
  ∀ hits : Text → Bool, (∀ w, eqCI w noneSource → hits w = false) →
    use.allowed hits (parse (filterMetaCspWith content site.source)) →
    use.allowed hits (parse content) ∨
      ∃ d, effective (parse (filterMetaCspWith content site.source)) (texts use.fallback) = some d ∧
        ∃ w ∈ plumbing site.source d.name, hits w

/-- The author's directive for the use allows it whatever its URL is, or there is one, as the
    filter reads the policy, whose own expressions stand in the author's. -/
def Sheltered (content : Text) (site : SiteFrameSource) (use : Use) : Prop :=
  ∀ a, effective (parse content) (texts use.fallback) = some a →
    use.strictIn a ∧ use.inserted = false ∨
      ∃ d, effective (authored content) (texts use.fallback) = some d ∧
        if use.strictIn d then use.inserted = true
        else ∀ w ∈ own site.source d, use.strictIn a = false ∧ w ∈ a.value

theorem strictIn_filtered (site : SiteFrameSource)
    (h : effective (authored content) (texts use.fallback) = some d) :
    use.strictIn (filtered site.source d) = use.strictIn d := by
  have hany (hp : Plumbing (fun _ => true) use) :
      (filtered site.source d).value.any isStrictDynamic = d.value.any isStrictDynamic := by
    have hplumbing := all_eq_true.1 (plumbing_all site d.name)
    have hall := all_filtered site (needs_mem site hp h).2 (p := fun w => !isStrictDynamic w)
      (by decide) fun w hw => by simp_all [clear]
    rw [any_eq_not_all_not, hall, any_eq_not_all_not]
  cases use with
  | script b => exact hany rfl
  | worker => exact congrArg (_ && ·) (hany rfl)
  | _ => rfl

theorem noNewSource_iff_sheltered (huse : use.isRequest) :
    NoNewSource content site use ↔ Sheltered content site use := by
  unfold NoNewSource Sheltered Use.allowed
  rw [effective_filtered (isKept_fallback use)]
  cases effective (parse content) (texts use.fallback) with
  | none => simp
  | some a =>
    simp only [Option.some.injEq, forall_eq', Use.accepted_of_isRequest huse]
    -- A request whose URL matches no source.
    have hfree (h : (if use.strictIn a then !use.inserted else a.value.any fun _ => false) = true) :
        use.strictIn a ∧ use.inserted = false := by
      split at h <;> simp_all
    cases hd : effective (authored content) (texts use.fallback) with
    | none =>
      refine ⟨fun h => .inl (hfree ?_), fun h hits _ _ => .inl ?_⟩
      · simpa using h (fun _ => false) (fun _ _ => rfl) rfl
      · simp_all
    | some d =>
      simp only [Option.map_some, Option.all_some, strictIn_filtered site hd, Option.some.injEq,
        exists_eq_left']
      refine ⟨fun h => or_iff_not_imp_left.2 fun hnot => ?_, ?_⟩
      · split
        case isTrue hs =>
          by_contra hins
          exact hnot (hfree (by simpa [hs, hins] using h (fun _ => false) (fun _ _ => rfl)))
        case isFalse hs =>
          -- A request that matches one expression of the author's only.
          intro w hw
          obtain ⟨hmem, hnone, hplumbing⟩ := mem_own.1 hw
          have hlawful : ∀ v, Text.eqCI v noneSource → (v == w) = false := fun v hv =>
            beq_false_of_ne fun e => Bool.eq_false_iff.1 hnone (e ▸ hv)
          have := h (· == w) hlawful (by simpa [hs] using hmem)
          cases ha : use.strictIn a <;> simp_all [filtered]
      · rintro (hfree | hd) hits hlawful hallowed
        · simp [hfree]
        by_cases hs : use.strictIn d
        · simp_all
        simp only [hs, Bool.false_eq_true, if_false, any_eq_true] at hd hallowed
        obtain ⟨w, hw, hhit⟩ := hallowed
        by_cases hplumbing : w ∈ plumbing site.source d.name
        · exact .inr ⟨w, hplumbing, hhit⟩
        · have hnone : Text.eqCI w noneSource = false :=
            Bool.eq_false_iff.2 fun h => by simp [hlawful w h] at hhit
          obtain ⟨ha, hwa⟩ := hd w (mem_own.2 ⟨hw, hnone, hplumbing⟩)
          exact .inl (by simpa [ha] using ⟨w, hwa, hhit⟩)

/-- The filtered policy allows no request that the author's policy forbids, those of the plumbing
    apart, exactly if all kinds of requests are sheltered. -/
theorem noNewSource_iff (content : Text) (site : SiteFrameSource) :
    (∀ use, use.isRequest → NoNewSource content site use) ↔
      ∀ use, use.isRequest → Sheltered content site use :=
  forall₂_congr fun _ huse => noNewSource_iff_sheltered huse

/-- A directive without a source allows nothing, and no directive allows everything. -/
theorem empty_directive_dropped : ¬NoNewSource "img-src" ⟨[], rfl, rfl⟩ (.resource .img) := by
  intro h
  have := h (fun _ => false) (fun _ _ => rfl) (by decide)
  revert this
  decide

end ZeroProxy.Htmltx.MetaCsp

namespace ZeroProxy.Membrane.MetaCsp

/-! ## The filter in the page

`filterMetaCSP` (`web/zp-core.js`) is to do what `filter_meta_csp_with` does. White space is not
the same in the two languages, `toLowerCase` follows Unicode, and the table of sources is an
object, with what objects inherit. -/

open Csp Htmltx.MetaCsp List Text

def readSegment (segment : Text) : Option Directive :=
  match words isJsWhitespace segment with
  | [] => none
  | name :: value => some ⟨jsLower name, value⟩

/-- `META_CSP_INFRA[name]` is a property that every object has, and no text to split. -/
def throws (d : Directive) : Bool :=
  d.value ≠ [] ∧ d.name ∈ texts ["constructor", "__proto__"]

/-- The filtered policy, unless the filter throws. -/
def filterMetaCSP (content siteFrameSrc : Text) : Option Text :=
  let directives := (split (· == ';') content).filterMap readSegment
  if directives.any throws then none
  else some ("; ".toList.intercalate
    ((directives.filterMap (trustedTypesDirective fun t => jsLower t == noneSource) ++
      directives.filterMap (filterDirective siteFrameSrc)).map Directive.text))

/-- The names of directives that one of the filters keeps or throws at. -/
def handled : List Text := resource ++ texts ["script-src", "script-src-elem", "script-src-attr",
  "connect-src", "worker-src", "child-src", "frame-src", "style-src", "style-src-elem",
  "style-src-attr", "default-src", "require-trusted-types-for", "trusted-types", "constructor",
  "__proto__"]

/-- Nothing was read, or a directive that both filters drop. -/
def isDropped (o : Option Directive) : Bool := o.all fun d => d.name ∉ handled

def workerSrc : Text := "worker-src"

/-- The page takes a name that is written with the Kelvin sign for `worker-src`. -/
def misread (d : Directive) : Bool := d.value ≠ [] ∧ d.name ≠ workerSrc ∧ jsLower d.name = workerSrc

/-- A character that is white space in both languages or in none. -/
def isShared (c : Char) : Bool := c.toNat != 0x85 && c.toNat != 0xfeff

/-- A segment that the two languages split alike, or that both drop. -/
def isCommon (s : Text) : Bool :=
  s.all isShared || isDropped (readSegment s) && isDropped (Directive.read isRustWhitespace s)

variable {s : Text}

theorem words_js (h : s.all isShared) : words isJsWhitespace s = words isRustWhitespace s := by
  have hsplit : split isJsWhitespace s = split isRustWhitespace s := by
    induction s with
    | nil => rfl
    | cons c s ih =>
      rw [all_cons, Bool.and_eq_true] at h
      have hc : isJsWhitespace c = isRustWhitespace c := by
        have h' := h.1
        simp only [isShared, Bool.and_eq_true, bne_iff_ne] at h'
        simp [isJsWhitespace, isRustWhitespace, beq_false_of_ne h'.1, beq_false_of_ne h'.2]
      rw [split, split, splitOnP_cons_eq_if_modifyHead, splitOnP_cons_eq_if_modifyHead,
        hc, ← split, ← split, ih h.2]
  rw [words, words, hsplit]

/-- Names are put in lower case alike, or the name is not of ASCII characters, and in the page it is
    not either or has a `k`. -/
theorem jsLower_cases (s : Text) : jsLower s = s.map Char.toLower ∨
    isAscii (s.map Char.toLower) = false ∧ (isAscii (jsLower s) = false ∨ 'k' ∈ jsLower s) := by
  by_cases hdot : '\u0130' ∈ s
  · refine .inr ⟨all_eq_false.2 ⟨'\u0130', mem_map.2 ⟨_, hdot, by decide⟩, by decide⟩, .inl ?_⟩
    exact all_eq_false.2 ⟨'\u0307', mem_flatMap.2 ⟨_, hdot, by decide⟩, by decide⟩
  by_cases hkelvin : '\u212a' ∈ s
  · refine .inr ⟨all_eq_false.2 ⟨'\u212a', mem_map.2 ⟨_, hkelvin, by decide⟩, by decide⟩, .inr ?_⟩
    exact mem_flatMap.2 ⟨_, hkelvin, by decide⟩
  · exact .inl (jsLower_eq_map fun c hc => ⟨fun e => hkelvin (e ▸ hc), fun e => hdot (e ▸ hc)⟩)

theorem jsLower_map_toLower (s : Text) : jsLower (s.map Char.toLower) = jsLower s := by
  induction s with
  | nil => rfl
  | cons c s ih =>
    have hc : jsLowerChar c.toLower = jsLowerChar c := by
      unfold jsLowerChar
      by_cases hkelvin : c = '\u212a'
      · rw [hkelvin]
        decide
      by_cases hdot : c = '\u0130'
      · rw [hdot]
        decide
      rw [if_neg fun e => hkelvin (eq_of_toLower_eq e (by decide)),
        if_neg fun e => hdot (eq_of_toLower_eq e (by decide)), if_neg hkelvin, if_neg hdot,
        toLower_toLower]
    rw [jsLower, map_cons, flatMap_cons, hc, ← jsLower, ih, jsLower, jsLower, flatMap_cons]

variable {d : Directive} {n : Text}

theorem not_handled_of_not_ascii (h : isAscii n = false) : n ∉ handled := fun hn => by
  have hall : handled.all isAscii := by decide
  rw [all_eq_true.1 hall n hn] at h
  cases h

theorem eq_workerSrc (h : 'k' ∈ n) (hn : n ∈ handled) : n = workerSrc := by
  have hall : handled.all fun t => t.all (· != 'k') || t == workerSrc := by decide
  have hor := all_eq_true.1 hall n hn
  rw [Bool.or_eq_true, beq_iff_eq] at hor
  exact hor.resolve_left fun hno => by simpa using all_eq_true.1 hno _ h

theorem handled_of_isKept (h : isKept n) : n ∈ handled := by
  have hmem {l : List Text} (hn : n ∈ l) (hl : l.all (handled.contains ·)) : n ∈ handled := by
    simpa using all_eq_true.1 hl n hn
  rcases h with hinfra | hres
  · unfold infraSources at hinfra
    split_ifs at hinfra with h1 h2 h3 h4 h5 h6
    · exact hmem h1 (by decide)
    · exact h2 ▸ by decide
    · exact h3 ▸ by decide
    · exact hmem h4 (by decide)
    · exact hmem h5 (by decide)
    · exact h6 ▸ by decide
    · exact absurd rfl hinfra
  · exact hmem hres (by decide)

theorem throws_of_not_handled (h : d.name ∉ handled) : throws d = false := by
  refine decide_eq_false fun hd => h ?_
  have hall : (texts ["constructor", "__proto__"]).all (handled.contains ·) := by decide
  simpa using all_eq_true.1 hall _ hd.2

theorem trustedTypesDirective_of_not_handled (h : d.name ∉ handled) (isNone : Text → Bool) :
    trustedTypesDirective isNone d = none := by
  have hne {t : Text} (ht : t ∈ handled) : d.name ≠ t := fun e => h (e ▸ ht)
  rw [trustedTypesDirective, if_neg (hne (by decide)), if_neg (hne (by decide))]

theorem filterDirective_of_not_handled (h : d.name ∉ handled) (f : Text) :
    filterDirective f d = none :=
  Option.eq_none_iff_forall_ne_some.2 fun _ he =>
    h (handled_of_isKept (kept_of_filterDirective he).1)

variable {g k : Directive → Option Directive}

/-- What is done with the directives of a segment agrees if it agrees on directives, and those of
    other names are dropped. -/
theorem bind_readSegment (h : isCommon s)
    (hname : ∀ d ∈ Directive.read isRustWhitespace s, misread d = false)
    (hother : ∀ d, d.name ∉ handled → g d = none ∧ k d = none) (hempty : g ⟨workerSrc, []⟩ = none)
    (hsame : ∀ d, g d = k d) :
    (readSegment s).bind g = (Directive.read isRustWhitespace s).bind k := by
  rw [isCommon, Bool.or_eq_true, Bool.and_eq_true] at h
  rcases h with h | ⟨hjs, hrust⟩
  · rw [Directive.read] at hname
    rw [readSegment, words_js h, Directive.read]
    cases hwords : words isRustWhitespace s with
    | nil => rfl
    | cons n value =>
      rcases jsLower_cases n with heq | ⟨hrust, hjs⟩
      · dsimp only [Option.bind_some]
        rw [heq]
        exact hsame _
      refine Eq.trans ?_ (hother _ (not_handled_of_not_ascii hrust)).2.symm
      by_cases hn : jsLower n ∈ handled
      · -- Only the Kelvin sign makes a name of the table out of another one.
        have hworker := eq_workerSrc (hjs.resolve_left fun hascii =>
          not_handled_of_not_ascii hascii hn) hn
        rw [hwords] at hname
        have hread := of_decide_eq_false (hname _ rfl)
        have hne : n.map Char.toLower ≠ workerSrc := fun e => by
          rw [e] at hrust
          exact absurd hrust (by decide)
        have hvalue : value = [] := by
          by_contra hvalue
          exact hread ⟨hvalue, hne, (jsLower_map_toLower n).trans hworker⟩
        dsimp only [Option.bind_some]
        rwa [hworker, hvalue]
      · exact (hother _ hn).1
  · have hnone {o : Option Directive} {f : Directive → Option Directive} (ho : isDropped o)
        (hf : ∀ d, d.name ∉ handled → f d = none) : o.bind f = none := by
      cases o with
      | none => rfl
      | some d => exact hf d (by simpa [isDropped] using ho)
    rw [hnone hjs fun d hd => (hother d hd).1, hnone hrust fun d hd => (hother d hd).2]

theorem filterMap_readSegment {content : Text} (h : (split (· == ';') content).all isCommon)
    (hname : (segments content).all (! misread ·))
    (hother : ∀ d, d.name ∉ handled → g d = none ∧ k d = none) (hempty : g ⟨workerSrc, []⟩ = none)
    (hsame : ∀ d, g d = k d) :
    ((split (· == ';') content).filterMap readSegment).filterMap g =
      (segments content).filterMap k := by
  rw [segments, filterMap_filterMap, filterMap_filterMap]
  refine filterMap_congr fun s hs => bind_readSegment (all_eq_true.1 h s hs) (fun d hd => ?_)
    hother hempty hsame
  simpa using all_eq_true.1 hname d (mem_filterMap.2 ⟨s, hs, hd⟩)

theorem jsLower_beq_none (t : Text) : (jsLower t == noneSource) = eqCI t noneSource := by
  have hlower : noneSource.map Char.toLower = noneSource := by decide
  have hne {t : Text} (h : isAscii t = false) : t ≠ noneSource := fun e => by
    rw [e] at h
    exact absurd h (by decide)
  rw [eqCI, hlower]
  rcases jsLower_cases t with heq | ⟨hrust, hjs | hmem⟩
  · rw [heq]
  · rw [beq_false_of_ne (hne hjs), beq_false_of_ne (hne hrust)]
  · have hk : jsLower t ≠ noneSource := fun e => absurd (e ▸ hmem) (by decide)
    rw [beq_false_of_ne hk, beq_false_of_ne (hne hrust)]

/-- The two filters do the same with a policy in which no directive they handle has a character that
    only one of the languages takes for white space, none names an inherited property, and none is
    read as `worker-src` by the page only. -/
theorem filterMetaCSP_eq (content siteFrameSrc : Text)
    (hchars : (split (· == ';') content).all isCommon)
    (hnames : (segments content).all (! throws ·)) (hkelvin : (segments content).all (! misread ·)) :
    filterMetaCSP content siteFrameSrc = some (filterMetaCspWith content siteFrameSrc) := by
  have hthrows := filterMap_readSegment (g := Option.guard throws) hchars hkelvin
    (fun d h => by simp [throws_of_not_handled h]) (by decide) (fun _ => rfl)
  have htypes := filterMap_readSegment (g := trustedTypesDirective fun t => jsLower t == noneSource)
    (k := trustedTypesDirective (eqCI · noneSource)) hchars hkelvin
    (fun d h => by simp [trustedTypesDirective_of_not_handled h]) (by decide)
    (fun d => by simp only [jsLower_beq_none])
  have hfilter := filterMap_readSegment (g := filterDirective siteFrameSrc) hchars hkelvin
    (fun d h => by simp [filterDirective_of_not_handled h]) rfl (fun _ => rfl)
  rw [filterMap_eq_filter] at hthrows
  rw [filterMetaCSP, htypes, hfilter, if_neg]
  · rfl
  intro hany
  obtain ⟨d, hd, hthrow⟩ := any_eq_true.1 hany
  have hmem := mem_filter.2 ⟨hd, hthrow⟩
  rw [hthrows] at hmem
  have := all_eq_true.1 hnames d (mem_filter.1 hmem).1
  simp [hthrow] at this

/-- A policy in capitals with two white-space characters of both languages and a Kelvin sign in its
    source, and a directive that both drop with a character that is white space in Rust. -/
theorem filterMetaCSP_eq_imgSrc : let policy := "IMG-SRC\u3000a\u000b\u212a;x\u0085y z".toList
    (split (· == ';') policy).all isCommon ∧ (segments policy).all (! throws ·) ∧
      (segments policy).all (! misread ·) ∧
      filterMetaCSP policy [] = some (filterMetaCspWith policy []) :=
  ⟨by decide, by decide, by decide, filterMetaCSP_eq _ [] (by decide) (by decide) (by decide)⟩

/-- The name of a property that every object has makes the filter of the page throw. -/
theorem constructor_throws : filterMetaCSP "constructor a" [] = none ∧
    filterMetaCspWith "constructor a" [] = [] := by decide

end ZeroProxy.Membrane.MetaCsp
