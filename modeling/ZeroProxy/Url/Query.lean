import ZeroProxy.Text.Search

/-!
# Parts of a URL

What the URL standard's parser does to a string before it reads anything, how it reads the scheme
and cuts off the query and the fragment, and how `URLSearchParams` reads the query.
-/

namespace ZeroProxy.Url

open Bool List Text

/-- The string the URL parser reads. -/
def preprocess (s : Text) : Text :=
  (stripBoth isC0OrSpace s).filter fun c => !isTabOrNewline c

def isSchemeChar (c : Char) : Bool := isAsciiAlnum c || c == '+' || c == '-' || c == '.'

/-- The scheme a preprocessed string begins with, lower-cased. -/
def scheme : Text → Option Text
  | [] => none
  | c :: s =>
    if isAsciiAlpha c ∧ (s.dropWhile isSchemeChar).head? = some ':' then
      some ((c :: s.takeWhile isSchemeChar).map Char.toLower)
    else none

/-- The URL parser reads `s` as a `javascript:` URL. -/
def IsJavascriptURL (s : Text) : Prop := scheme (preprocess s) = some "javascript".toList

instance (s : Text) : Decidable (IsJavascriptURL s) :=
  inferInstanceAs (Decidable (_ = _))

/-! ## What the parser reads first -/

theorem not_isTabOrNewline_of_not_isC0OrSpace {c : Char} (h : isC0OrSpace c = false) :
    isTabOrNewline c = false := by
  by_contra hc
  rw [not_eq_false, isTabOrNewline, or_eq_true, or_eq_true, beq_iff_eq,
    beq_iff_eq, beq_iff_eq] at hc
  rcases hc with (rfl | rfl) | rfl <;> simp [isC0OrSpace] at h

theorem head?_preprocess (s : Text) : (preprocess s).head? = (s.dropWhile isC0OrSpace).head? := by
  rw [← head?_stripBoth]
  cases hs : stripBoth isC0OrSpace s with
  | nil => simp [preprocess, hs]
  | cons c t =>
    have hc : isC0OrSpace c = false :=
      head?_dropWhile_eq_false (by rw [← head?_stripBoth, hs, head?_cons])
    rw [preprocess, hs, filter_cons_of_pos]
    · rfl
    · rw [not_isTabOrNewline_of_not_isC0OrSpace hc, Bool.not_false]

/-! ## The scheme -/

theorem isAsciiAlpha_toLower (c : Char) : isAsciiAlpha c.toLower = isAsciiAlpha c := by
  have h := toNat_toLower c
  rw [Bool.eq_iff_iff]
  simp only [isAsciiAlpha, or_eq_true, and_eq_true, decide_eq_true_eq]
  split at h <;> omega

theorem isSchemeChar_toLower (c : Char) : isSchemeChar c.toLower = isSchemeChar c := by
  by_cases hc : isAsciiAlpha c
  · have hl : isAsciiAlpha c.toLower := by rw [isAsciiAlpha_toLower, hc]
    simp [isSchemeChar, isAsciiAlnum, hc, hl]
  · have hl : c.toLower = c := by
      rw [← Char.toNat_inj, toNat_toLower, if_neg]
      simp only [isAsciiAlpha, or_eq_true, and_eq_true, decide_eq_true_eq] at hc
      omega
    rw [hl]

theorem isSchemeChar_of_toLower_eq {c d : Char} (h : c.toLower = d.toLower)
    (hd : isSchemeChar d) : isSchemeChar c := by
  rw [← isSchemeChar_toLower, h, isSchemeChar_toLower]
  exact hd

theorem scheme_eq_some_iff {s p : Text} {c : Char} (hc : isAsciiAlpha c)
    (hp : ∀ d ∈ p, isSchemeChar d) (hl : (c :: p).map Char.toLower = c :: p) :
    scheme s = some (c :: p) ↔ startsWithCI s (c :: p ++ [':']) := by
  constructor
  · intro h
    cases s with
    | nil => simp [scheme] at h
    | cons d s =>
      rw [scheme] at h
      split at h
      · next hd =>
        obtain ⟨u, hu⟩ := head?_eq_some_iff.1 hd.2
        rw [Option.some.injEq, ← hl] at h
        rw [← takeWhile_append_dropWhile (p := isSchemeChar) (l := s), hu,
          ← cons_append, startsWithCI_append_append h]
        simp
      · cases h
  · intro h
    obtain ⟨q, t, rfl, hq⟩ := startsWithCI_iff_exists.1 h
    rw [map_append, map_eq_append_iff] at hq
    obtain ⟨r, x, rfl, hr, hx⟩ := hq
    obtain ⟨d, r, rfl, hd, hr⟩ := map_eq_cons_iff.1 hr
    obtain ⟨x, y, rfl, hcolon, hy⟩ := map_eq_cons_iff.1 hx
    obtain rfl := map_eq_nil_iff.1 hy
    -- The colon ends the scheme, and every character before it belongs to it.
    obtain rfl : x = ':' := eq_of_toLower_eq hcolon rfl
    have hrs : ∀ e ∈ r, isSchemeChar e := by
      intro e he
      obtain ⟨f, hf, hef⟩ := mem_map.1 (hr ▸ mem_map_of_mem (f := Char.toLower) he)
      exact isSchemeChar_of_toLower_eq hef.symm (hp f hf)
    have htake : ((r ++ [':']) ++ t).takeWhile isSchemeChar = r := by
      rw [append_assoc, takeWhile_append_of_pos hrs]
      simp [show isSchemeChar ':' = false from rfl]
    have hdrop : ((r ++ [':']) ++ t).dropWhile isSchemeChar = ':' :: t := by
      rw [append_assoc, dropWhile_append_of_pos hrs]
      simp [show isSchemeChar ':' = false from rfl]
    have hda : isAsciiAlpha d := by
      rw [← isAsciiAlpha_toLower, hd, isAsciiAlpha_toLower, hc]
    rw [cons_append, cons_append, scheme, htake, hdrop, if_pos ⟨hda, rfl⟩,
      map_cons, hr, hd, ← map_cons, hl]

theorem isJavascriptURL_iff (s : Text) :
    IsJavascriptURL s ↔ startsWithCI (preprocess s) "javascript:" :=
  scheme_eq_some_iff (c := 'j') (p := "avascript") rfl (all_eq_true.1 (by decide))
    (by decide)

theorem IsJavascriptURL.head {s : Text} (h : IsJavascriptURL s) :
    ∃ c, (s.dropWhile isC0OrSpace).head? = some c ∧ c.toLower = 'j' := by
  rw [isJavascriptURL_iff] at h
  obtain ⟨c, t, hs, hc, -⟩ := exists_cons_of_startsWithCI (p := 'j') h
  refine ⟨c, ?_, hc⟩
  rw [← head?_preprocess, hs, head?_cons]

/-! ## The query -/

open Bytes

/-- The text before the first `c`, and the text after it. -/
def cut (c : Char) (s : Text) : Text × Option Text :=
  (s.takeWhile (· != c), (s.dropWhile (· != c)).tail?)

variable {c : Char} {s : Text}

theorem beq_eq_false_of_notMem (h : c ∉ s) : ∀ d ∈ s, (d == c) = false := by
  intro d hd
  rw [beq_eq_false_iff_ne]
  rintro rfl
  exact h hd

theorem cut_of_notMem (h : c ∉ s) : cut c s = (s, none) := by
  have hall : ∀ d ∈ s, (d != c) := fun d hd => by
    rw [bne, beq_eq_false_of_notMem h d hd, Bool.not_false]
  rw [cut, takeWhile_eq_self_iff.2 hall, dropWhile_eq_nil_iff.2 hall]
  rfl

theorem cut_append_cons (h : c ∉ s) (t : Text) : cut c (s ++ c :: t) = (s, some t) := by
  have hall : ∀ d ∈ s, (d != c) := fun d hd => by
    rw [bne, beq_eq_false_of_notMem h d hd, Bool.not_false]
  rw [cut, takeWhile_append_of_pos hall, dropWhile_append_of_pos hall]
  simp

/-! ## The parts of a URL -/

/-- A character that stands for itself in the query of an http(s) URL. -/
def isQueryUnit (c : Char) : Bool :=
  0x20 < c.toNat && c.toNat < 0x7f && !"\"#<>'".toList.contains c

def isFragmentUnit (c : Char) : Bool :=
  0x20 < c.toNat && c.toNat < 0x7f && !"\"<>`".toList.contains c

/-- An http(s) URL, as far as its query and fragment are concerned. -/
@[ext] structure Parts where
  /-- The scheme, the host and the path. -/
  address : Text
  /-- The text after `?`. -/
  query : Option Text
  /-- The text after `#`. -/
  fragment : Option Text
  deriving DecidableEq

/-- What `new URL(s)` makes of `s`. -/
def parts (s : Text) : Parts :=
  let (rest, fragment) := cut '#' (preprocess s)
  let (address, query) := cut '?' rest
  ⟨address, query.map (percentEncode isQueryUnit), fragment.map (percentEncode isFragmentUnit)⟩

theorem dropWhile_append_cons {p : Char → Bool} (hc : p c = false) (s t : Text) :
    (s ++ c :: t).dropWhile p = s.dropWhile p ++ c :: t := by
  induction s with
  | nil => rw [nil_append, dropWhile_cons_of_neg (by rw [hc]; exact Bool.false_ne_true)]; rfl
  | cons d s ih =>
    rw [cons_append, dropWhile_cons, dropWhile_cons]
    split
    · exact ih
    · rfl

theorem rdropWhile_append_cons {p : Char → Bool} (hc : p c = false) (s t : Text) :
    (s ++ c :: t).rdropWhile p = s ++ c :: t.rdropWhile p := by
  rw [rdropWhile, reverse_append, reverse_cons, append_assoc,
    singleton_append, dropWhile_append_cons hc, reverse_append, reverse_cons,
    reverse_reverse, append_assoc, singleton_append, rdropWhile]

theorem preprocess_append_cons (hc : isC0OrSpace c = false) (s t : Text) :
    preprocess (s ++ c :: t) = (s.dropWhile isC0OrSpace).filter (!isTabOrNewline ·) ++
      c :: (t.rdropWhile isC0OrSpace).filter (!isTabOrNewline ·) := by
  rw [preprocess, stripBoth, dropWhile_append_cons hc, rdropWhile_append_cons hc, filter_append,
    filter_cons_of_pos (by rw [not_isTabOrNewline_of_not_isC0OrSpace hc]; rfl)]

theorem preprocess_eq_self (h : ∀ c ∈ s, isC0OrSpace c = false) : preprocess s = s := by
  have hstrip : stripBoth isC0OrSpace s = s := by
    refine stripBoth_eq_self ?_ ?_
    · exact (Option.any_eq_false _ _).2 fun c hc => h c (mem_of_mem_head? hc)
    · exact (Option.any_eq_false _ _).2 fun c hc => h c (mem_of_getLast? hc)
  rw [preprocess, hstrip, filter_eq_self]
  intro c hc
  rw [not_isTabOrNewline_of_not_isC0OrSpace (h c hc)]
  rfl

theorem fragment_append_cons (hs : '#' ∉ s) (t : Text) : (parts (s ++ '#' :: t)).fragment =
      some (percentEncode isFragmentUnit ((t.rdropWhile isC0OrSpace).filter (!isTabOrNewline ·))) := by
  have hleft : '#' ∉ (s.dropWhile isC0OrSpace).filter (!isTabOrNewline ·) := fun h =>
    hs ((dropWhile_suffix _).subset (mem_filter.1 h).1)
  simp [parts, preprocess_append_cons (c := '#') (by decide), cut_append_cons hleft]

theorem fragment_of_notMem (hs : '#' ∉ s) : (parts s).fragment = none := by
  have hpre : '#' ∉ preprocess s := by
    intro h
    obtain ⟨a, b, heq, -, -⟩ := exists_stripBoth isC0OrSpace s
    rw [heq] at hs
    exact hs (mem_append_left _ (mem_append_right _ (mem_filter.1 h).1))
  simp [parts, cut_of_notMem hpre]

theorem parts_append (hs : ∀ c ∈ s, isC0OrSpace c = false) (hhash : '#' ∉ s) {t : Text}
    (ht : t = [] ∨ ∃ u, t = '#' :: u) :
    (parts (s ++ t)).address = (cut '?' s).1 ∧
      (parts (s ++ t)).query = (cut '?' s).2.map (percentEncode isQueryUnit) := by
  have hcut : (cut '#' (preprocess (s ++ t))).1 = s := by
    rcases ht with rfl | ⟨u, rfl⟩
    · rw [append_nil, preprocess_eq_self hs, cut_of_notMem hhash]
    have hdrop : s.dropWhile isC0OrSpace = s := by
      cases s with
      | nil => rfl
      | cons c s =>
        exact dropWhile_cons_of_neg (by
          rw [hs c (.head _)]; exact Bool.false_ne_true)
    have hfilter : s.filter (!isTabOrNewline ·) = s := by
      rw [filter_eq_self]
      intro c hc
      rw [not_isTabOrNewline_of_not_isC0OrSpace (hs c hc)]
      rfl
    rw [preprocess_append_cons (by decide), hdrop, hfilter, cut_append_cons hhash]
  simp [parts, hcut]

/-! ## The parameters of a query -/

def decodeUtf8 (bs : List UInt8) : Text := (fromUtf8 bs).getD (fromUtf8Lossy bs)

/-- A name or a value of a query. -/
def formDecode (s : Text) : Text :=
  decodeUtf8 (percentDecodeBytes (utf8 (s.map fun c => if c == '+' then ' ' else c)))

/-- A name with its value. -/
def param (s : Text) : Text × Text :=
  let (name, value) := cut '=' s
  (formDecode name, formDecode (value.getD []))

/-- `new URLSearchParams(query)`. -/
def searchParams (query : Text) : List (Text × Text) :=
  ((split (· == '&') query).filter (!·.isEmpty)).map param

def get (name : Text) (params : List (Text × Text)) : Option Text :=
  (params.find? (·.1 == name)).map (·.2)

theorem formDecode_percentEncode {keep : Char → Bool} (hpercent : keep '%' = false)
    (hplus : keep '+' = false) (s : Text) : formDecode (percentEncode keep s) = s := by
  have hmap : (percentEncode keep s).map (fun c => if c == '+' then ' ' else c) =
      percentEncode keep s := by
    conv_rhs => rw [← map_id (percentEncode keep s)]
    refine map_congr_left ?_
    intro c hc
    have hne : c ≠ '+' := by
      rintro rfl
      exact not_mem_percentEncode hplus (by decide) (by decide) s hc
    exact if_neg (by rwa [beq_iff_eq])
  rw [formDecode, hmap, percentDecodeBytes_percentEncode hpercent, decodeUtf8, fromUtf8_utf8,
    Option.getD_some]

theorem split_of_notMem (h : c ∉ s) : split (· == c) s = [s] :=
  splitOnP_eq_singleton (beq_eq_false_of_notMem h)

theorem split_append_cons (h : c ∉ s) (t : Text) :
    split (· == c) (s ++ c :: t) = s :: split (· == c) t :=
  splitOnP_append_cons_of_forall_mem (beq_eq_false_of_notMem h) c (beq_self_eq_true c) t

end ZeroProxy.Url
