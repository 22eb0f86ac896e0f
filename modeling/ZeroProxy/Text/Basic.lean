import Mathlib.Data.List.DropRight

/-!
# Texts

A text is a list of characters. The tests that URL and markup code makes on
texts are of two kinds: it strips characters of some class from both ends, and
it compares a prefix, ignoring the case of ASCII letters.
-/

namespace ZeroProxy

open List Bool

abbrev Text := List Char

/-- A string stands for its characters. -/
instance : Coe String Text := ⟨String.toList⟩

/-- Texts are compared by their characters. -/
instance instLawfulBEqText : LawfulBEq Text := inferInstance

@[inherit_doc instLawfulBEqText]
instance instLawfulBEqTextPair : LawfulBEq (Text × Text) := inferInstance

namespace Text

section

/-! ## Character classes -/

/-- HTML's ASCII whitespace: tab, line feed, form feed, carriage return, space. -/
def isAsciiWhitespace (c : Char) : Bool :=
  c == '\t' || c == '\n' || c == '\x0c' || c == '\r' || c == ' '

/-- Unicode `White_Space`, what `str::trim` strips. -/
def isRustWhitespace (c : Char) : Bool :=
  let n := c.toNat
  (0x09 ≤ n && n ≤ 0x0d) || n == 0x20 || n == 0x85 || n == 0xa0 || n == 0x1680 ||
    (0x2000 ≤ n && n ≤ 0x200a) || n == 0x2028 || n == 0x2029 || n == 0x202f || n == 0x205f ||
    n == 0x3000

/-- ECMAScript's `WhiteSpace` and `LineTerminator`, what `String.prototype.trim`
    strips: unlike `isRustWhitespace`, without U+0085 and with U+FEFF. -/
def isJsWhitespace (c : Char) : Bool :=
  let n := c.toNat
  (0x09 ≤ n && n ≤ 0x0d) || n == 0x20 || n == 0xa0 || n == 0x1680 ||
    (0x2000 ≤ n && n ≤ 0x200a) || n == 0x2028 || n == 0x2029 || n == 0x202f || n == 0x205f ||
    n == 0x3000 || n == 0xfeff

def isC0OrSpace (c : Char) : Bool := c.toNat ≤ 0x20

def isTabOrNewline (c : Char) : Bool := c == '\t' || c == '\n' || c == '\r'

def isAsciiAlpha (c : Char) : Bool :=
  (0x41 ≤ c.toNat && c.toNat ≤ 0x5a) || (0x61 ≤ c.toNat && c.toNat ≤ 0x7a)

def isAsciiDigit (c : Char) : Bool := 0x30 ≤ c.toNat && c.toNat ≤ 0x39

def isAsciiAlnum (c : Char) : Bool := isAsciiAlpha c || isAsciiDigit c

variable {c : Char}

theorem isRustWhitespace_of_ascii (h : isAsciiWhitespace c) : isRustWhitespace c := by
  simp only [isAsciiWhitespace, or_eq_true, beq_iff_eq] at h
  rcases h with (((rfl | rfl) | rfl) | rfl) | rfl <;> decide

theorem isJsWhitespace_of_ascii (h : isAsciiWhitespace c) : isJsWhitespace c := by
  simp only [isAsciiWhitespace, or_eq_true, beq_iff_eq] at h
  rcases h with (((rfl | rfl) | rfl) | rfl) | rfl <;> decide

/-! ## Stripping -/

/-- The text without the leading and trailing characters in `p`. -/
def stripBoth (p : Char → Bool) (s : Text) : Text := (s.dropWhile p).rdropWhile p

/-- `str::trim`. -/
def rustTrim : Text → Text := stripBoth isRustWhitespace

/-- `str::trim_start`. -/
def rustTrimStart (s : Text) : Text := s.dropWhile isRustWhitespace

/-- `String.prototype.trim`. -/
def jsTrim : Text → Text := stripBoth isJsWhitespace

theorem exists_stripBoth (p : Char → Bool) (s : Text) :
    ∃ a b, s = a ++ stripBoth p s ++ b ∧ (∀ c ∈ a, p c) ∧ ∀ c ∈ b, p c := by
  refine ⟨s.takeWhile p, (s.dropWhile p).rtakeWhile p, ?_, fun c => mem_takeWhile_imp,
    fun c hc => mem_rtakeWhile_imp hc⟩
  rw [stripBoth, append_assoc, rdropWhile_append_rtakeWhile, takeWhile_append_dropWhile]

variable {p : Char → Bool}

theorem head?_rdropWhile (hc : p c = false) (t : Text) :
    ((c :: t).rdropWhile p).head? = some c := by
  have hne : (c :: t).rdropWhile p ≠ [] := by
    rw [Ne]
    exact fun h => by simp [hc] at h
  obtain ⟨d, u, hu⟩ := exists_cons_of_ne_nil hne
  obtain ⟨v, hv⟩ := rdropWhile_prefix p (c :: t)
  rw [hu, cons_append, cons.injEq] at hv
  rw [hu, head?_cons, hv.1]

theorem head?_stripBoth (p : Char → Bool) (s : Text) :
    (stripBoth p s).head? = (s.dropWhile p).head? := by
  cases hs : s.dropWhile p with
  | nil => simp [stripBoth, hs]
  | cons c t =>
    have hc : p c = false := by simpa [hs] using head?_dropWhile_not p s
    rw [stripBoth, hs, head?_rdropWhile hc, head?_cons]

theorem stripBoth_append {a x b : Text} (ha : ∀ c ∈ a, p c)
    (hx : ∀ c ∈ x, p c = false) (hb : ∀ c ∈ b, p c) : stripBoth p (a ++ x ++ b) = x := by
  rw [stripBoth, append_assoc, dropWhile_append_of_pos ha]
  cases x with
  | nil =>
    have : b.dropWhile p = [] := dropWhile_eq_nil_iff.2 hb
    rw [nil_append, this, rdropWhile_nil]
  | cons c x =>
    have hc : p c = false := hx c (.head _)
    rw [cons_append, dropWhile_cons_of_neg (by simp [hc]), ← cons_append]
    induction b using reverseRecOn with
    | nil =>
      rw [append_nil, rdropWhile_eq_self_iff]
      intro hne
      rw [hx _ (getLast_mem hne)]
      exact nofun
    | append_singleton b d ih =>
      rw [← append_assoc, rdropWhile_concat_pos _ _ _ (hb d (by simp))]
      exact ih fun e he => hb e (by simp [he])

variable {s : Text}

theorem stripBoth_eq_stripBoth {q : Char → Bool} (hpq : ∀ c, p c → q c)
    (h : ∀ c ∈ stripBoth p s, q c = false) : stripBoth q s = stripBoth p s := by
  obtain ⟨a, b, hs, ha, hb⟩ := exists_stripBoth p s
  calc stripBoth q s = stripBoth q (a ++ stripBoth p s ++ b) := by rw [← hs]
    _ = stripBoth p s := stripBoth_append (fun c hc => hpq c (ha c hc)) h
        fun c hc => hpq c (hb c hc)

theorem stripBoth_map {f : Char → Char} (h : ∀ c, p (f c) = p c) (s : Text) :
    stripBoth p (s.map f) = (stripBoth p s).map f := by
  have hpf : p ∘ f = p := funext h
  rw [stripBoth, rdropWhile, dropWhile_map, hpf, ← map_reverse, dropWhile_map,
    hpf, ← map_reverse, ← rdropWhile, ← stripBoth]

theorem head?_dropWhile_eq_false (h : (s.dropWhile p).head? = some c) : p c = false := by
  simpa [h] using head?_dropWhile_not p s

/-! ## ASCII case -/

theorem toNat_toLower (c : Char) :
    c.toLower.toNat = if 0x41 ≤ c.toNat ∧ c.toNat ≤ 0x5a then c.toNat + 32 else c.toNat := by
  delta Char.toLower
  simp only [Char.toNat]
  split
  · next h =>
    have h1 : 65 ≤ c.val.toNat := h.1
    have h2 : c.val.toNat ≤ 90 := h.2
    rw [if_pos ⟨h1, h2⟩]
    change (c.val + 32).toNat = _
    rw [UInt32.toNat_add]
    simp only [UInt32.reduceToNat]
    omega
  · next h => exact (if_neg h).symm

theorem toLower_toLower (c : Char) : c.toLower.toLower = c.toLower := by
  rw [← Char.toNat_inj, toNat_toLower, toNat_toLower]
  split_ifs <;> omega

theorem eq_of_toLower_eq {d : Char} (h : c.toLower = d) (hd : isAsciiAlpha d = false) : c = d := by
  rw [← Char.toNat_inj, toNat_toLower] at h
  rw [← Char.toNat_inj]
  simp only [isAsciiAlpha, or_eq_false_iff, and_eq_false_iff, decide_eq_false_iff_not]
    at hd
  split at h <;> omega

def eqCI (s t : Text) : Bool := s.map Char.toLower == t.map Char.toLower

theorem eqCI_forall {q : Char → Bool} (hq : ∀ c, q c → isAsciiAlpha c = false) {t : Text}
    (h : eqCI s t) (ht : ∀ c ∈ t, q c = false) : ∀ c ∈ s, q c = false := by
  intro c hc
  rw [eqCI, beq_iff_eq] at h
  have hmem : c.toLower ∈ t.map Char.toLower := h ▸ mem_map_of_mem hc
  obtain ⟨d, hd, hdc⟩ := mem_map.1 hmem
  by_contra hqc
  rw [not_eq_false] at hqc
  have hlow : c.toLower = c := by
    rw [← Char.toNat_inj, toNat_toLower, if_neg]
    have := hq c hqc
    simp only [isAsciiAlpha, or_eq_false_iff, and_eq_false_iff, decide_eq_false_iff_not]
      at this
    omega
  obtain rfl : d = c := eq_of_toLower_eq (hdc.trans hlow) (hq c hqc)
  rw [ht d hd] at hqc
  cases hqc

theorem not_isAsciiAlpha_of_isRustWhitespace (h : isRustWhitespace c) : isAsciiAlpha c = false := by
  simp only [isRustWhitespace, or_eq_true, and_eq_true, decide_eq_true_eq, beq_iff_eq] at h
  simp only [isAsciiAlpha, or_eq_false_iff, and_eq_false_iff, decide_eq_false_iff_not]
  omega

theorem not_isAsciiAlpha_of_isJsWhitespace (h : isJsWhitespace c) : isAsciiAlpha c = false := by
  simp only [isJsWhitespace, or_eq_true, and_eq_true, decide_eq_true_eq, beq_iff_eq] at h
  simp only [isAsciiAlpha, or_eq_false_iff, and_eq_false_iff, decide_eq_false_iff_not]
  omega

theorem isRustWhitespace_toLower (c : Char) : isRustWhitespace c.toLower = isRustWhitespace c := by
  have h := toNat_toLower c
  rw [Bool.eq_iff_iff]
  simp only [isRustWhitespace, or_eq_true, and_eq_true, decide_eq_true_eq, beq_iff_eq]
  split at h <;> omega

/-- `startsWithCI s p`: `s` begins with `p`, up to the case of ASCII letters. -/
def startsWithCI : Text → Text → Bool
  | _, [] => true
  | [], _ :: _ => false
  | c :: s, p :: ps => c.toLower == p.toLower && startsWithCI s ps

@[simp] theorem startsWithCI_nil (s : Text) : startsWithCI s [] := by
  cases s <;> rfl

@[simp] theorem nil_startsWithCI_cons (p : Char) (ps : Text) :
    startsWithCI [] (p :: ps) = false := rfl

@[simp] theorem cons_startsWithCI_cons (c p : Char) (s ps : Text) :
    startsWithCI (c :: s) (p :: ps) = (c.toLower == p.toLower && startsWithCI s ps) := rfl

theorem startsWithCI_append_append {q p : Text} (h : q.map Char.toLower = p.map Char.toLower)
    (t r : Text) : startsWithCI (q ++ t) (p ++ r) = startsWithCI t r := by
  induction p generalizing q with
  | nil =>
    rw [map_nil, map_eq_nil_iff] at h
    rw [h, nil_append, nil_append]
  | cons c p ih =>
    cases q with
    | nil => simp at h
    | cons d q =>
      rw [map_cons, map_cons, cons.injEq] at h
      rw [cons_append, cons_append, cons_startsWithCI_cons, ih h.2, h.1]
      simp

theorem startsWithCI_iff_exists {p : Text} :
    startsWithCI s p ↔ ∃ q t, s = q ++ t ∧ q.map Char.toLower = p.map Char.toLower := by
  constructor
  · intro h
    induction p generalizing s with
    | nil => exact ⟨[], s, rfl, rfl⟩
    | cons p ps ih =>
      cases s with
      | nil => simp at h
      | cons c s =>
        rw [cons_startsWithCI_cons, and_eq_true, beq_iff_eq] at h
        obtain ⟨q, t, rfl, hq⟩ := ih h.2
        exact ⟨c :: q, t, rfl, by rw [map_cons, map_cons, h.1, hq]⟩
  · rintro ⟨q, t, rfl, hq⟩
    rw [← append_nil p, startsWithCI_append_append hq, startsWithCI_nil]

theorem startsWithCI_append {p : Text} (h : startsWithCI s p) (t : Text) :
    startsWithCI (s ++ t) p := by
  obtain ⟨q, u, rfl, hq⟩ := startsWithCI_iff_exists.1 h
  exact startsWithCI_iff_exists.2 ⟨q, u ++ t, append_assoc .., hq⟩

theorem startsWithCI_of_prefix {t p : Text} (hst : s <+: t) (h : startsWithCI s p) :
    startsWithCI t p := by
  obtain ⟨u, rfl⟩ := hst
  exact startsWithCI_append h u

theorem exists_cons_of_startsWithCI {ps : Text} {p : Char} (h : startsWithCI s (p :: ps)) :
    ∃ c t, s = c :: t ∧ c.toLower = p.toLower ∧ startsWithCI t ps := by
  cases s with
  | nil => simp at h
  | cons c t =>
    rw [cons_startsWithCI_cons, and_eq_true, beq_iff_eq] at h
    exact ⟨c, t, rfl, h.1, h.2⟩

end

section

/-! ## JavaScript

`toLowerCase` follows Unicode. Only two characters beyond ASCII have lower-case forms with an ASCII
character in them, the Kelvin sign and the capital I with dot; the others are left as they are
here: a comparison with an ASCII text cannot tell the difference. -/

/-- The lower-case form of a character, up to characters beyond ASCII. -/
def jsLowerChar (c : Char) : Text :=
  if c = '\u212a' then ['k']
  else if c = '\u0130' then ['i', '\u0307']
  else [c.toLower]

/-- `String.prototype.toLowerCase`, up to characters beyond ASCII. -/
def jsLower (s : Text) : Text := s.flatMap jsLowerChar

theorem jsLower_eq_map {s : Text} (h : ∀ c ∈ s, c ≠ '\u212a' ∧ c ≠ '\u0130') :
    jsLower s = s.map Char.toLower := by
  induction s with
  | nil => rfl
  | cons c s ih =>
    obtain ⟨h1, h2⟩ := h c mem_cons_self
    rw [jsLower, flatMap_cons, jsLowerChar, if_neg h1, if_neg h2, ← jsLower,
      ih fun d hd => h d (mem_cons_of_mem _ hd), map_cons, singleton_append]

/-! ## Words

The regular expressions `/\bp\b/i` find `p`, up to ASCII case, where a word character meets none on
either side. -/

def isWordChar (c : Char) : Bool := isAsciiAlnum c || c == '_'

/-- `\b` between two neighbours. -/
def boundary (a b : Option Char) : Bool := a.any isWordChar != b.any isWordChar

/-- `p` stands, as a word, at the head of a text that `prev` comes before. -/
def wordAt (p : Text) (prev : Option Char) (s : Text) : Bool :=
  startsWithCI s p && boundary prev s.head? &&
    boundary (s.take p.length).getLast? (s.drop p.length).head?

/-- The search for the word `p` from a place on that `prev` comes before. -/
def searchWord (p : Text) : Option Char → Text → Bool
  | prev, [] => wordAt p prev []
  | prev, c :: s => wordAt p prev (c :: s) || searchWord p (some c) s

/-- `/\bp\b/i.test(s)`. -/
def testWord (p s : Text) : Bool := searchWord p none s

end

end Text

end ZeroProxy
