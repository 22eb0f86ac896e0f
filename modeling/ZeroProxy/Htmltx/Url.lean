import ZeroProxy.Html.CharRef
import ZeroProxy.Url.Query

/-!
# URLs in markup

How the HTML transformer reads the URLs it finds in attributes, resolves them
against the document's base and writes them as addresses of the proxy. A URL that
the page handles itself, an *inert* one, has no such address.

The HTML library hands the transformer attribute values as they stand in the
markup. `decodeUrlHtmlEntities` decodes the references that URLs use: a few named
ones and the numeric ones, when their semicolon is near. A browser decodes more.

The two decoders are compared where it matters for URLs, at the first significant
character: `head_decodeUrlHtmlEntities` says that when the browser's text begins
with the letter j, after C0 controls and spaces, the transformer's text begins,
after white space, with that letter, an ampersand or a control.
-/

namespace ZeroProxy.Htmltx

open Html List Option Text

/-- The value of the digits `s` as a `u32`, with the optional sign that Rust's
    integer parsing accepts. -/
def u32FromStrRadix (b : Base) (s : Text) : Option Nat :=
  let ds := if s.head? = some '+' then s.tail else s
  if ds.isEmpty || !ds.all b.isDigit then none
  else if b.number 0 ds < 2 ^ 32 then some (b.number 0 ds) else none

def charFromU32 (n : Nat) : Option Char := if n.isValidChar then some (Char.ofNat n) else none

/-- The character of a numeric reference, given what stands between its ampersand
    and its semicolon. -/
def numericEntityChar : Text → Option Char
  | '#' :: body =>
    if body.isEmpty then none
    else match body with
      | 'x' :: hex => (u32FromStrRadix hexadecimal hex).bind charFromU32
      | 'X' :: hex => (u32FromStrRadix hexadecimal hex).bind charFromU32
      | _ => (u32FromStrRadix decimal body).bind charFromU32
  | _ => none

/-- The references that are decoded by name, between ampersand and semicolon. -/
def entityTable : List (Text × Char) := [("amp", '&'), ("lt", '<'), ("gt", '>'), ("quot", '"'),
    ("apos", '\''), ("#39", '\''), ("#x27", '\''), ("nbsp", '\u00a0'),
    ("sol", '/'), ("#47", '/'), ("#x2f", '/'), ("#x2F", '/')]

/-- The number of characters before the first semicolon, if that semicolon is one of
    the next `budget` bytes. -/
def semiOffset : Nat → Text → Option Nat
  | _, [] => none
  | budget, c :: s =>
    if budget = 0 then none
    else if c = ';' then some 0
    else (semiOffset (budget - c.utf8Size) s).map (· + 1)

/-- The transformer's resolver: the semicolon must be among the eight bytes after the
    ampersand. -/
def urlRef : Resolver := fun s =>
  (semiOffset 8 s).bind fun k =>
    let entity := s.take k
    match entityTable.lookup entity with
    | some c => some ([c], k + 1)
    | none => (numericEntityChar entity).map fun c => ([c], k + 1)

def decodeUrlHtmlEntities (src : Text) : Text := decodeRefs urlRef src

/-! ## What the resolver accepts -/

variable {s : Text}

theorem eq_append_of_semiOffset {budget k : Nat} (h : semiOffset budget s = some k) :
    ∃ t, s = s.take k ++ ';' :: t := by
  induction s generalizing budget k with
  | nil => simp [semiOffset] at h
  | cons c s ih =>
    rw [semiOffset] at h
    split at h
    · cases h
    split at h
    · next hc => exact ⟨s, by rw [← some.inj h, hc]; rfl⟩
    · obtain ⟨j, hj, rfl⟩ := map_eq_some_iff.1 h
      obtain ⟨t, ht⟩ := ih hj
      exact ⟨t, by rw [take_succ_cons, cons_append, ← ht]⟩

variable {c : Char}

theorem entityTable_cases {e : Text} (h : entityTable.lookup e = some c) :
    (e ++ [';'], [c]) ∈ basicRefs ∨ numericEntityChar e = some c := by
  have hmem : (e, c) ∈ entityTable := lookup_eq_some_iff.1 h |>.elim fun a ⟨b, hb, _⟩ => by
    rw [hb]; simp
  have hall : ∀ p ∈ entityTable, (p.1 ++ [';'], [p.2]) ∈ basicRefs ∨
      numericEntityChar p.1 = some p.2 := by decide
  exact hall _ hmem

variable {n : Nat}

theorem urlRef_cases {r : Text} (h : urlRef s = some (r, n)) :
    ∃ e t c, s = e ++ ';' :: t ∧ r = [c] ∧ n = e.length + 1 ∧
      ((e ++ [';'], [c]) ∈ basicRefs ∨ numericEntityChar e = some c) := by
  obtain ⟨k, hk, h⟩ := bind_eq_some_iff.1 h
  obtain ⟨t, ht⟩ := eq_append_of_semiOffset hk
  have hlen : (s.take k).length = k := by
    have := congrArg length ht
    simp only [length_append, length_cons, length_take] at this ⊢
    omega
  dsimp only at h
  cases hl : entityTable.lookup (s.take k) with
  | some c =>
    rw [hl, some.injEq, Prod.mk.injEq] at h
    exact ⟨s.take k, t, c, ht, h.1.symm, by rw [hlen, h.2], entityTable_cases hl⟩
  | none =>
    rw [hl] at h
    obtain ⟨c, hc, h⟩ := map_eq_some_iff.1 h
    rw [Prod.mk.injEq] at h
    exact ⟨s.take k, t, c, ht, h.1.symm, by rw [hlen, h.2], .inr hc⟩

/-! ## The browser at the same reference -/

/-- A character that neither the URL parser skips nor begins `javascript:`. -/
def Harmless (c : Char) : Prop := isC0OrSpace c = false ∧ c.toLower ≠ 'j'

instance (c : Char) : Decidable (Harmless c) := inferInstanceAs (Decidable (_ ∧ _))

theorem harmless_windows1252 {m : Nat} (h : windows1252 n = some m) : Harmless (Char.ofNat m) := by
  unfold windows1252 at h
  split at h <;> cases h <;> decide

theorem refChar_cases (h : charFromU32 n = some c) : refChar n = c ∨ Harmless (refChar n) := by
  rw [charFromU32] at h
  split at h
  · next hv =>
    rw [refChar]
    split
    · exact .inr (by decide)
    · cases hw : windows1252 n with
      | none => exact .inl (some.inj h)
      | some m => exact .inr (harmless_windows1252 hw)
  · cases h

theorem u32FromStrRadix_cases {b : Base} (h : u32FromStrRadix b s = some n) :
    (∃ t, s = '+' :: t) ∨ (s ≠ [] ∧ (∀ c ∈ s, b.isDigit c) ∧ n = b.number 0 s) := by
  simp only [u32FromStrRadix] at h
  by_cases hs : s.head? = some '+'
  · exact .inl (head?_eq_some_iff.1 hs)
  rw [if_neg hs] at h
  split at h
  · cases h
  next hds =>
  rw [Bool.or_eq_true, not_or, List.isEmpty_iff, Bool.not_eq_true', Bool.not_eq_false,
    List.all_eq_true] at hds
  split at h
  · exact .inr ⟨hds.1, hds.2, (some.inj h).symm⟩
  · cases h

theorem numericRef_of_u32 {b : Base} (hsemi : b.isDigit ';' = false) (hplus : b.isDigit '+' = false)
    (h : (u32FromStrRadix b s).bind charFromU32 = some c) (t : Text) :
    numericRef b (s ++ ';' :: t) = none ∨
      ∃ d, numericRef b (s ++ ';' :: t) = some ([d], s.length + 1) ∧ (d = c ∨ Harmless d) := by
  obtain ⟨n, hn, hc⟩ := bind_eq_some_iff.1 h
  rcases u32FromStrRadix_cases hn with ⟨u, rfl⟩ | ⟨hne, hds, rfl⟩
  · exact .inl (numericRef_cons_eq_none hplus _)
  · exact .inr ⟨_, numericRef_append hne hds hsemi t, refChar_cases hc⟩

theorem attrRef_of_numericEntityChar (T : NamedRefs) {e : Text}
    (h : numericEntityChar e = some c) (t : Text) :
    attrRef T (e ++ ';' :: t) = none ∨
      ∃ d, attrRef T (e ++ ';' :: t) = some ([d], e.length + 1) ∧ (d = c ∨ Harmless d) := by
  unfold numericEntityChar at h
  split at h
  · next body =>
    split at h
    · cases h
    next hne =>
    split at h
    case' h_1 => rw [cons_append, cons_append, attrRef_hexadecimal T (.inl rfl)]
    case' h_2 => rw [cons_append, cons_append, attrRef_hexadecimal T (.inr rfl)]
    case' h_3 hx hX =>
      obtain ⟨a, u, rfl⟩ := exists_cons_of_ne_nil (by simpa using hne)
      have ha : ¬ (a = 'x' ∨ a = 'X') := by
        rintro (rfl | rfl)
        · exact hx u rfl
        · exact hX u rfl
      rw [cons_append, cons_append, attrRef_decimal T ha, ← cons_append]
    all_goals
      rcases numericRef_of_u32 rfl rfl h t with hr | ⟨d, hr, hd⟩
      · exact .inl (by rw [hr]; rfl)
      · exact .inr ⟨d, by rw [hr]; rfl, hd⟩
  · cases h

theorem attrRef_of_urlRef (T : NamedRefs) {r : Text} (h : urlRef s = some (r, n)) :
    attrRef T s = some (r, n) ∨
      ∃ d u, decodeAttr T ('&' :: s) = d :: u ∧ Harmless d := by
  obtain ⟨e, t, c, rfl, rfl, rfl, hbasic | hnum⟩ := urlRef_cases h
  · left
    have hhead : ∀ p ∈ basicRefs, p.1.head?.any isAsciiAlnum := by decide
    cases e with
    | nil => exact absurd (hhead _ hbasic) Bool.false_ne_true
    | cons d e => exact attrRef_of_entry T (by simpa using hhead _ hbasic) (T.basic _ hbasic) t
  · rcases attrRef_of_numericEntityChar T hnum t with hr | ⟨d, hr, rfl | hd⟩
    · exact .inr ⟨'&', _, decodeRefs_amp_none _ hr, by decide⟩
    · exact .inl hr
    · exact .inr ⟨d, _, decodeRefs_amp_some _ hr, hd⟩

/-! ## The first significant character -/

/-- The first character of `s` after those in `p` is one in `q`. -/
def FirstAfter (p : Char → Bool) (q : Char → Prop) (s : Text) : Prop :=
  ∃ c, (s.dropWhile p).head? = some c ∧ q c

theorem firstAfter_cons_of_pos {p : Char → Bool} {q : Char → Prop} (hc : p c)
    (s : Text) : FirstAfter p q (c :: s) ↔ FirstAfter p q s := by
  rw [FirstAfter, dropWhile_cons_of_pos hc, FirstAfter]

theorem firstAfter_cons_of_neg {p : Char → Bool} {q : Char → Prop}
    (hc : p c = false) (s : Text) : FirstAfter p q (c :: s) ↔ q c := by
  rw [FirstAfter, dropWhile_cons_of_neg (by simp [hc])]
  simp

/-- A first character that the transformer takes for no inert URL. -/
def Telling (c : Char) : Prop := c.toLower = 'j' ∨ c = '&' ∨ isC0OrSpace c

theorem eq_j_of_toLower (h : c.toLower = 'j') : c = 'j' ∨ c = 'J' := by
  rw [← Char.toNat_inj, toNat_toLower, show 'j'.toNat = 0x6a from rfl] at h
  rw [← Char.toNat_inj, ← Char.toNat_inj, show 'j'.toNat = 0x6a from rfl,
    show 'J'.toNat = 0x4a from rfl]
  split at h <;> omega

theorem telling_cons {t : Text}
    (ih : FirstAfter isC0OrSpace (·.toLower = 'j') s → FirstAfter isRustWhitespace Telling t)
    (h : FirstAfter isC0OrSpace (·.toLower = 'j') (c :: s)) :
    FirstAfter isRustWhitespace Telling (c :: t) := by
  by_cases hw : isRustWhitespace c
  · rw [firstAfter_cons_of_pos hw]
    by_cases hc : isC0OrSpace c
    · exact ih ((firstAfter_cons_of_pos hc s).1 h)
    · -- White space beyond ASCII is not the letter j.
      rw [Bool.not_eq_true] at hc
      rcases eq_j_of_toLower ((firstAfter_cons_of_neg hc s).1 h) with rfl | rfl <;>
        exact absurd hw (by decide)
  rw [Bool.not_eq_true] at hw
  rw [firstAfter_cons_of_neg hw]
  by_cases hc : isC0OrSpace c
  · exact .inr (.inr hc)
  · rw [Bool.not_eq_true] at hc
    exact .inl ((firstAfter_cons_of_neg hc s).1 h)

theorem head_decodeUrlHtmlEntities (T : NamedRefs) (s : Text)
    (h : FirstAfter isC0OrSpace (·.toLower = 'j') (decodeAttr T s)) :
    FirstAfter isRustWhitespace Telling (decodeUrlHtmlEntities s) := by
  induction hn : s.length using Nat.strong_induction_on generalizing s with
  | _ n ih =>
  subst hn
  cases s with
  | nil =>
    obtain ⟨c, hc, -⟩ := h
    cases hc
  | cons c s =>
    by_cases hc : c = '&'
    · subst hc
      cases href : urlRef s with
      | none =>
        rw [decodeUrlHtmlEntities, decodeRefs_amp_none urlRef href,
          firstAfter_cons_of_neg (by decide)]
        exact .inr (.inl rfl)
      | some p =>
        obtain ⟨r, k⟩ := p
        rcases attrRef_of_urlRef T href with hattr | ⟨d, u, hd, hharmless⟩
        · obtain ⟨e, t, c, -, rfl, -, -⟩ := urlRef_cases href
          rw [decodeAttr, decodeRefs_amp_some _ hattr] at h
          rw [decodeUrlHtmlEntities, decodeRefs_amp_some urlRef href]
          refine telling_cons (fun hs => ih _ ?_ (s.drop k) hs rfl) h
          rw [length_drop, length_cons]
          omega
        · rw [hd, firstAfter_cons_of_neg hharmless.1] at h
          exact absurd h hharmless.2
    · rw [decodeAttr, decodeRefs_cons _ hc] at h
      rw [decodeUrlHtmlEntities, decodeRefs_cons urlRef hc]
      exact telling_cons (fun hs => ih _ (by simp) s hs rfl) h

/-! ## Addresses -/

open Bool

/-- `s` begins with the ASCII text `p`, in any case. -/
abbrev startsWithAsciiCi (s p : Text) : Bool := startsWithCI s p

/-- A trimmed URL whose scheme the page handles without the proxy. -/
def isInertScheme (s : Text) : Bool := startsWithAsciiCi s "data:" || startsWithAsciiCi s "blob:" ||
    startsWithAsciiCi s "about:" || startsWithAsciiCi s "mailto:" ||
    startsWithAsciiCi s "javascript:" || startsWithAsciiCi s "vbscript:"

/-- A URL that begins with `http://` or `https://`. -/
def isHttpUrl (s : Text) : Bool := startsWithAsciiCi s "http://" || startsWithAsciiCi s "https://"

/-- The segments of a path with `.` dropped and `..` taking the segment before it;
    empty segments are dropped too. -/
def foldSegments : List Text → List Text → List Text
  | out, [] => out
  | out, seg :: segs =>
    if seg = [] ∨ seg = "." then foldSegments out segs
    else if seg = ".." then foldSegments out.dropLast segs
    else foldSegments (out ++ [seg]) segs

/-- A path with its `.` and `..` segments folded; the query and the fragment stay. -/
def normalizeDotSegments (path : Text) : Text :=
  let isTail := fun c => c == '?' || c == '#'
  let pathPart := path.takeWhile fun c => !isTail c
  let tail := path.dropWhile fun c => !isTail c
  let endsDot := "/.".toList.isSuffixOf pathPart || "/..".toList.isSuffixOf pathPart
  if !contains pathPart "./" && !endsDot then path
  else
    let out := foldSegments [] (split (· == '/') pathPart)
    let absolute := pathPart.head? == some '/'
    let s := (if absolute then ['/'] else []) ++ List.intercalate ['/'] out
    let trailingSlash := pathPart.getLast? == some '/'
    let s := if (trailingSlash || endsDot) && s.getLast? != some '/' then s ++ ['/'] else s
    s ++ tail

/-- The scheme and authority of an absolute URL, up to the path. -/
def baseOrigin (base : Text) : Option Text := (find "://" base).map fun i =>
    let schemeEnd := i + 3
    match findChar (· == '/') (base.drop schemeEnd) with
    | some j => base.take (schemeEnd + j)
    | none => base

/-- The relative URL `rel` resolved against `base`; `none` when the base is not an
    absolute http(s) URL. -/
def resolveAgainstBase (rel base : Text) : Option Text :=
  if !isHttpUrl base then none
  else (baseOrigin base).map fun origin =>
    let basePathFull :=
      if origin.length ≥ base.length then "/".toList else base.drop origin.length
    let basePath := basePathFull.takeWhile fun c => !(c == '?' || c == '#')
    if rel.head? = some '?' ∨ rel.head? = some '#' then origin ++ basePath ++ rel
    else if rel.head? = some '/' then origin ++ normalizeDotSegments rel
    else
      let dir := match rfindChar (· == '/') basePath with
        | some i => basePath.take (i + 1)
        | none => "/"
      origin ++ normalizeDotSegments (dir ++ rel)

/-- The absolute http(s) form of the URL `raw` in a document with base `targetUrl`. -/
def absoluteTargetUrl (raw targetUrl : Text) : Option Text :=
  let s := rustTrim raw
  if s.isEmpty || s.head? == some '#' then none
  else if isInertScheme s then none
  else if isHttpUrl s then some s
  else if "//".toList.isPrefixOf s then some ("https:" ++ s)
  else resolveAgainstBase s targetUrl

theorem length_le_of_baseOrigin {base origin : Text} (h : baseOrigin base = some origin) :
    ∃ i n, find "://" base = some i ∧ origin = base.take n ∧ (i + 3 ≤ n ∨ base.length ≤ n) := by
  rw [baseOrigin, map_eq_some_iff] at h
  obtain ⟨i, hi, ho⟩ := h
  refine ⟨i, ?_⟩
  cases hf : findChar (· == '/') (base.drop (i + 3)) with
  | none => exact ⟨base.length, hi, by simpa [hf] using ho.symm, .inr le_rfl⟩
  | some j => exact ⟨i + 3 + j, hi, by simpa [hf] using ho.symm, .inl (by omega)⟩

theorem startsWithCI_baseOrigin {base origin p : Text} (hp : ∀ c ∈ p, isAsciiAlpha c)
    (h : startsWithCI base (p ++ "://")) (ho : baseOrigin base = some origin) :
    startsWithCI origin (p ++ "://") := by
  obtain ⟨i, n, hi, rfl, hn⟩ := length_le_of_baseOrigin ho
  rcases hn with hn | hn
  · refine startsWithCI_take h (le_trans ?_ hn)
    -- The scheme has no colon, so the first `://` comes after it.
    obtain ⟨q, t, rfl, hq⟩ := startsWithCI_iff_exists.1 h
    rw [map_append] at hq
    obtain ⟨r, u, rfl, hr, -⟩ := map_eq_append_iff.1 hq
    have hcolon : ':' ∉ r := by
      intro hc
      have hm : Char.toLower ':' ∈ p.map Char.toLower := hr ▸ mem_map_of_mem hc
      obtain ⟨c, hcp, hcc⟩ := mem_map.1 hm
      obtain rfl : c = ':' := eq_of_toLower_eq hcc rfl
      exact absurd (hp _ hcp) (by decide)
    have hlen : r.length = p.length := by simpa using congrArg length hr
    rw [append_assoc, show "://" = ':' :: "//" from rfl, find_append hcolon, map_eq_some_iff] at hi
    obtain ⟨k, -, rfl⟩ := hi
    simp only [length_append]
    have : "://".toList.length = 3 := rfl
    omega
  · rwa [take_of_length_le hn]

theorem isHttpUrl_append {s : Text} (h : isHttpUrl s) (t : Text) : isHttpUrl (s ++ t) := by
  rw [isHttpUrl, or_eq_true] at h ⊢
  exact h.imp (startsWithCI_append · t) (startsWithCI_append · t)

theorem isHttpUrl_resolveAgainstBase {rel base abs : Text}
    (h : resolveAgainstBase rel base = some abs) : isHttpUrl abs := by
  rw [resolveAgainstBase] at h
  split at h
  · cases h
  next hb =>
  rw [not_eq_true', not_eq_false] at hb
  obtain ⟨origin, ho, rfl⟩ := map_eq_some_iff.1 h
  have horigin : isHttpUrl origin := by
    rw [isHttpUrl, or_eq_true] at hb ⊢
    exact hb.imp (startsWithCI_baseOrigin (p := "http") (all_eq_true.1 (by decide)) · ho)
      (startsWithCI_baseOrigin (p := "https") (all_eq_true.1 (by decide)) · ho)
  dsimp only
  split
  · rw [append_assoc]
    exact isHttpUrl_append horigin _
  · split <;> exact isHttpUrl_append horigin _

theorem isHttpUrl_absoluteTargetUrl {raw base abs : Text}
    (h : absoluteTargetUrl raw base = some abs) : isHttpUrl abs := by
  simp only [absoluteTargetUrl] at h
  split at h
  · cases h
  split at h
  · cases h
  split at h
  · next hs => exact some.inj h ▸ hs
  split at h
  · next hs =>
    obtain ⟨t, ht⟩ := isPrefixOf_iff_prefix.1 hs
    rw [← some.inj h, ← ht, ← append_assoc]
    exact isHttpUrl_append (by decide) t
  · exact isHttpUrl_resolveAgainstBase h

theorem isSome_baseOrigin {base p : Text} (h : startsWithCI base (p ++ "://")) :
    (baseOrigin base).isSome := by
  obtain ⟨q, t, rfl, hq⟩ := startsWithCI_iff_exists.1 h
  rw [map_append] at hq
  obtain ⟨r, u, rfl, -, hu⟩ := map_eq_append_iff.1 hq
  -- None of the three characters is a letter, so they stand in `base` as they are.
  obtain rfl : u = "://" := by
    obtain ⟨a, u, rfl, ha, hu⟩ := map_eq_cons_iff.1 hu
    obtain ⟨b, u, rfl, hb, hu⟩ := map_eq_cons_iff.1 hu
    obtain ⟨c, u, rfl, hc, hu⟩ := map_eq_cons_iff.1 hu
    rw [eq_of_toLower_eq ha rfl, eq_of_toLower_eq hb rfl, eq_of_toLower_eq hc rfl,
      map_eq_nil_iff.1 hu]
    rfl
  rw [baseOrigin, isSome_map, append_assoc]
  exact isSome_find _ r t

theorem isSome_resolveAgainstBase (rel : Text) {base : Text} (h : isHttpUrl base) :
    (resolveAgainstBase rel base).isSome := by
  rw [resolveAgainstBase, h, Bool.not_true, if_neg Bool.false_ne_true, isSome_map]
  rw [isHttpUrl, or_eq_true] at h
  rcases h with h | h
  · exact isSome_baseOrigin (p := "http") h
  · exact isSome_baseOrigin (p := "https") h

theorem absoluteTargetUrl_eq_none {raw base : Text} (hb : isHttpUrl base)
    (h : absoluteTargetUrl raw base = none) :
    rustTrim raw = [] ∨ (rustTrim raw).head? = some '#' ∨ isInertScheme (rustTrim raw) := by
  simp only [absoluteTargetUrl] at h
  split at h
  · next h0 =>
    rw [or_eq_true, List.isEmpty_iff, beq_iff_eq] at h0
    exact h0.imp_right .inl
  split at h
  · next hi => exact .inr (.inr hi)
  split at h
  · cases h
  split at h
  · cases h
  · have := isSome_resolveAgainstBase (rustTrim raw) hb
    rw [h] at this
    cases this

/-! ## Addresses of the proxy -/

/-- The characters that stand for themselves in a query value: letters, digits and
    `-._~`. -/
def urlParamKeep (c : Char) : Bool :=
  isAsciiAlnum c || c == '-' || c == '.' || c == '_' || c == '~'

/-- The characters that stand for themselves in the script route's address. -/
def queryKeep (c : Char) : Bool :=
  !(c.toNat < 0x20 || c.toNat == 0x7f || " \"#<>&=+%?/:;'\\`\x7b\x7d[]^|".toList.contains c)

/-- The address `<origin><control prefix>`, ending in a slash. -/
def controlBase (proxyOrigin control : Text) : Text :=
  let out := trimEndMatches '/' proxyOrigin ++ control
  if out.getLast? == some '/' then out else out ++ ['/']

theorem exists_controlBase_eq_cons {c : Char} (hc : (c == '/') = false) (t control : Text) :
    ∃ u, controlBase (c :: t) control = c :: u := by
  obtain ⟨u, hu⟩ := head?_eq_some_iff.1 (head?_rdropWhile (p := (· == '/')) hc t)
  simp only [controlBase, trimEndMatches, hu]
  split
  · exact ⟨_, rfl⟩
  · exact ⟨_, rfl⟩

/-- The address that navigates to `absolute` through the proxy. -/
def proxiedNavigationUrl (absolute proxyOrigin control : Text) : Option Text :=
  if proxyOrigin.isEmpty then none
  else some (controlBase proxyOrigin control ++ "?via=" ++ percentEncode urlParamKeep absolute)

/-- `url` up to its fragment, and the fragment with its `#`. -/
def splitFragment (url : Text) : Text × Text :=
  (url.takeWhile (· != '#'), url.dropWhile (· != '#'))

/-- The address that fetches `absolute` through the proxy; the fragment stays
    outside the query. -/
def subresourceProxyUrl (absolute proxyOrigin control : Text) (tabId : Option Text) : Text :=
  let (head, fragment) := splitFragment absolute
  let tab := match tabId.filter (!·.isEmpty) with
    | some tab => "&tab=" ++ percentEncode urlParamKeep tab
    | none => []
  controlBase proxyOrigin control ++ "api/v2/fetch?url=" ++
    percentEncode urlParamKeep head ++ tab ++ fragment

/-- The proxy's address for the subresource URL `raw`. -/
def proxiedSubresourceUrl (raw proxyOrigin control targetUrl : Text) : Option Text :=
  match absoluteTargetUrl raw targetUrl with
  | none => none
  | some absolute =>
    if (splitFragment absolute).1.isEmpty then none
    else some (subresourceProxyUrl absolute proxyOrigin control none)

/-- The script route's address for the script `abs`, of kind `kind`. -/
def scriptRouteUrl (abs proxyOrigin kind : Text) : Text :=
  trimEndMatches '/' proxyOrigin ++ "/zp/api/script?u=" ++ percentEncode queryKeep abs ++
    "&kind=" ++ kind

/-- The script route's address for the module `raw`. -/
def proxiedModuleScriptUrl (raw targetUrl proxyOrigin : Text) : Option Text :=
  if proxyOrigin.isEmpty then none
  else (absoluteTargetUrl raw targetUrl).map fun abs => scriptRouteUrl abs proxyOrigin "module"

/-- The script route's address for a script given as a `data:` URL. -/
def proxiedDataScriptUrl (raw proxyOrigin : Text) (module : Bool) : Option Text :=
  if proxyOrigin.isEmpty then none
  else some (scriptRouteUrl (rustTrim raw) proxyOrigin (if module then "module" else "classic"))

end ZeroProxy.Htmltx
