import ZeroProxy.Text.Basic

/-!
# Character references

Markup writes a character as a reference: an ampersand, then a number or a name.
Every decoder here has one shape, `decodeRefs ref`: at each ampersand the
*resolver* `ref` looks at the text that follows and says what the reference
stands for and how far it reaches, or that this ampersand begins no reference.
-/

namespace ZeroProxy.Html

open List Option Text

/-! ## Decoders -/

/-- What a resolver finds after an ampersand: the text the reference stands for,
    and the number of characters it takes up (the ampersand not counted). -/
abbrev Resolver := Text → Option (Text × Nat)

/-- Decoding that first skips `k` characters, the rest of a reference already
    replaced. -/
def decodeFrom (ref : Resolver) : Nat → Text → Text
  | _, [] => []
  | k + 1, _ :: s => decodeFrom ref k s
  | 0, c :: s =>
    if c = '&' then
      match ref s with
      | some (r, n) => r ++ decodeFrom ref n s
      | none => '&' :: decodeFrom ref 0 s
    else c :: decodeFrom ref 0 s

/-- The text with every reference that `ref` resolves replaced, left to right,
    once. -/
def decodeRefs (ref : Resolver) (s : Text) : Text := decodeFrom ref 0 s

section decode

variable (ref : Resolver)

theorem decodeFrom_eq_drop (k : Nat) (s : Text) :
    decodeFrom ref k s = decodeRefs ref (s.drop k) := by
  induction s generalizing k with
  | nil => simp [decodeRefs, decodeFrom]
  | cons c s ih =>
    cases k with
    | zero => rfl
    | succ k => rw [decodeFrom, ih, drop_succ_cons]

theorem decodeRefs_cons {c : Char} (h : c ≠ '&') (s : Text) :
    decodeRefs ref (c :: s) = c :: decodeRefs ref s := by
  rw [decodeRefs, decodeFrom, if_neg h, decodeRefs]

variable {s : Text}

theorem decodeRefs_amp_none (h : ref s = none) :
    decodeRefs ref ('&' :: s) = '&' :: decodeRefs ref s := by
  rw [decodeRefs, decodeFrom, if_pos rfl, h, decodeRefs]

theorem decodeRefs_amp_some {r : Text} {n : Nat} (h : ref s = some (r, n)) :
    decodeRefs ref ('&' :: s) = r ++ decodeRefs ref (s.drop n) := by
  rw [decodeRefs, decodeFrom, h]
  exact congrArg (r ++ ·) (decodeFrom_eq_drop ref n s)

theorem decodeRefs_eq_self (h : '&' ∉ s) : decodeRefs ref s = s := by
  induction s with
  | nil => rfl
  | cons c s ih =>
    rw [mem_cons, not_or] at h
    rw [decodeRefs_cons ref (Ne.symm h.1), ih h.2]

end decode

/-! ## Numbers -/

/-- The value of a hexadecimal digit. -/
def hexVal (c : Char) : Option Nat :=
  let n := c.toNat
  if 0x30 ≤ n ∧ n ≤ 0x39 then some (n - 0x30)
  else if 0x61 ≤ n ∧ n ≤ 0x66 then some (n - 0x57)
  else if 0x41 ≤ n ∧ n ≤ 0x46 then some (n - 0x37)
  else none

/-- The value of a decimal digit. -/
def decVal (c : Char) : Option Nat :=
  let n := c.toNat
  if 0x30 ≤ n ∧ n ≤ 0x39 then some (n - 0x30) else none

/-- A base in which numeric references are written. -/
structure Base where
  /-- The number of digits. -/
  size : Nat
  /-- The value of a digit, `none` for other characters. -/
  val : Char → Option Nat

def decimal : Base := ⟨10, decVal⟩

def hexadecimal : Base := ⟨16, hexVal⟩

def Base.isDigit (b : Base) (c : Char) : Bool := (b.val c).isSome

/-- The number that the digits `ds` write, after those of `n`. -/
def Base.number (b : Base) (n : Nat) (ds : Text) : Nat :=
  ds.foldl (fun n c => n * b.size + (b.val c).getD 0) n

def Base.digits (b : Base) (s : Text) : Text := s.takeWhile b.isDigit

/-- The characters that the numbers `0x80` to `0x9f` stand for: windows-1252, where
    it has one. -/
def windows1252 : Nat → Option Nat
  | 0x80 => some 0x20ac | 0x82 => some 0x201a | 0x83 => some 0x0192 | 0x84 => some 0x201e
  | 0x85 => some 0x2026 | 0x86 => some 0x2020 | 0x87 => some 0x2021 | 0x88 => some 0x02c6
  | 0x89 => some 0x2030 | 0x8a => some 0x0160 | 0x8b => some 0x2039 | 0x8c => some 0x0152
  | 0x8e => some 0x017d | 0x91 => some 0x2018 | 0x92 => some 0x2019 | 0x93 => some 0x201c
  | 0x94 => some 0x201d | 0x95 => some 0x2022 | 0x96 => some 0x2013 | 0x97 => some 0x2014
  | 0x98 => some 0x02dc | 0x99 => some 0x2122 | 0x9a => some 0x0161 | 0x9b => some 0x203a
  | 0x9c => some 0x0153 | 0x9e => some 0x017e | 0x9f => some 0x0178
  | _ => none

def replacement : Char := Char.ofNat 0xfffd

/-- The character that a numeric reference to `n` stands for. -/
def refChar (n : Nat) : Char :=
  if n = 0 ∨ ¬ n.isValidChar then replacement
  else match windows1252 n with
    | some m => Char.ofNat m
    | none => Char.ofNat n

/-- A numeric reference in base `b`, after its marker: digits, and a semicolon
    that may be missing. -/
def numericRef (b : Base) (s : Text) : Option (Text × Nat) :=
  let ds := b.digits s
  if ds.isEmpty then none
  else
    let k := if (s.drop ds.length).head? = some ';' then 1 else 0
    some ([refChar (b.number 0 ds)], ds.length + k)

variable {b : Base}

theorem numericRef_append {ds : Text} (hne : ds ≠ []) (hds : ∀ c ∈ ds, b.isDigit c)
    (hb : b.isDigit ';' = false) (t : Text) :
    numericRef b (ds ++ ';' :: t) = some ([refChar (b.number 0 ds)], ds.length + 1) := by
  have htake : b.digits (ds ++ ';' :: t) = ds := by
    rw [Base.digits, takeWhile_append_of_pos hds]
    simp [hb]
  have hempty : ds.isEmpty = false := by simpa using hne
  simp [numericRef, htake, hempty]

theorem numericRef_cons_eq_none {c : Char} (hc : b.isDigit c = false) (s : Text) :
    numericRef b (c :: s) = none := by
  simp [numericRef, Base.digits, hc]

/-! ## Names -/

/-- The named references that tables of URL code decode, with their semicolon. -/
def basicRefs : List (Text × Text) := [("amp;", "&"), ("lt;", "<"), ("gt;", ">"), ("quot;", "\""),
    ("apos;", "'"), ("nbsp;", "\u00a0"), ("sol;", "/")]

/-- A table of named references: each name, with its semicolon if it has one, and
    the text it stands for. Only what is used of the standard's table is
    assumed: a semicolon ends a name, no name has two meanings, and
    `basicRefs` are in it. -/
structure NamedRefs where
  /-- The names and what they stand for. -/
  entries : List (Text × Text)
  /-- A semicolon is the last character of a name. -/
  semicolon_last : ∀ e ∈ entries, ';' ∉ e.1.dropLast
  /-- A name has one meaning. -/
  functional : ∀ e ∈ entries, ∀ f ∈ entries, e.1 = f.1 → e.2 = f.2
  /-- The basic names are in the table. -/
  basic : ∀ e ∈ basicRefs, e ∈ entries

def basicNamedRefs : NamedRefs where
  entries := basicRefs
  semicolon_last := by decide
  functional := by decide
  basic := fun _ h => h

/-- The entry with the longest name that `s` begins with. -/
def longest : List (Text × Text) → Text → Option (Text × Text)
  | [], _ => none
  | e :: es, s =>
    match longest es s with
    | none => if e.1.isPrefixOf s then some e else none
    | some f => if e.1.isPrefixOf s ∧ f.1.length < e.1.length then some e else some f

variable {es : List (Text × Text)} {s r q : Text}

theorem longest_isSome {e : Text × Text} (he : e ∈ es)
    (hs : e.1 <+: s) : ∃ f, longest es s = some f := by
  induction es with
  | nil => cases he
  | cons g es ih =>
    rw [longest]
    split
    · next hnone =>
      rcases mem_cons.1 he with rfl | he
      · exact ⟨e, if_pos <| isPrefixOf_iff_prefix.2 hs⟩
      · obtain ⟨f, hf⟩ := ih he
        rw [hnone] at hf
        cases hf
    · split <;> exact ⟨_, rfl⟩

theorem longest_spec {f : Text × Text} (h : longest es s = some f) :
    f ∈ es ∧ f.1 <+: s ∧ ∀ e ∈ es, e.1 <+: s → e.1.length ≤ f.1.length := by
  induction es generalizing f with
  | nil => cases h
  | cons e es ih =>
    rw [longest] at h
    split at h
    · next hnone =>
      split at h
      · next he =>
        cases h
        refine ⟨.head _, isPrefixOf_iff_prefix.1 he, fun g hg hgs => ?_⟩
        rcases mem_cons.1 hg with rfl | hg
        · exact le_rfl
        · obtain ⟨k, hk⟩ := longest_isSome hg hgs
          rw [hnone] at hk
          cases hk
      · cases h
    · next g hg =>
      obtain ⟨hmem, hpre, hmax⟩ := ih hg
      split at h
      · next he =>
        cases h
        refine ⟨.head _, isPrefixOf_iff_prefix.1 he.1, fun k hk hks => ?_⟩
        rcases mem_cons.1 hk with rfl | hk
        · exact le_rfl
        · exact (hmax k hk hks).trans he.2.le
      next he =>
      cases h
      refine ⟨.tail _ hmem, hpre, fun k hk hks => ?_⟩
      rcases mem_cons.1 hk with rfl | hk
      · rw [not_and, isPrefixOf_iff_prefix] at he
        exact not_lt.1 (he hks)
      · exact hmax k hk hks

theorem longest_eq_of_semicolon (T : NamedRefs) {name : Text}
    (h : (name ++ [';'], r) ∈ T.entries) (t : Text) :
    longest T.entries (name ++ ';' :: t) = some (name ++ [';'], r) := by
  have hpre : name ++ [';'] <+: name ++ ';' :: t := ⟨t, by simp⟩
  obtain ⟨f, hf⟩ := longest_isSome h hpre
  obtain ⟨hmem, hfs, hmax⟩ := longest_spec hf
  have hle := hmax _ h hpre
  -- Both names begin the text, so the shorter one begins the longer one.
  obtain ⟨u, hu⟩ := prefix_of_prefix_length_le hpre hfs hle
  have hname : f.1 = name ++ [';'] := by
    cases u using reverseRecOn with
    | nil => rw [← hu, append_nil]
    | append_singleton u c =>
      refine absurd ?_ (T.semicolon_last f hmem)
      rw [← hu, ← append_assoc, dropLast_concat]
      simp
  rw [hf, some.injEq]
  exact Prod.ext hname (T.functional f hmem _ h hname)

/-- A numeric reference, after its `#`. -/
def hashRef : Resolver
  | [] => none
  | d :: t =>
    if d = 'x' ∨ d = 'X' then (numericRef hexadecimal t).map fun (r, n) => (r, n + 2)
    else (numericRef decimal (d :: t)).map fun (r, n) => (r, n + 1)

/-- A named reference in an attribute value. A name that ends without a semicolon
    before `=`, a letter or a digit is left as it is. -/
def nameRef (T : NamedRefs) : Resolver := fun s =>
  (longest T.entries s).bind fun (name, r) =>
    let next := (s.drop name.length).head?
    if name.getLast? ≠ some ';' ∧ next.any (fun d => d == '=' || isAsciiAlnum d) then none
    else some (r, name.length)

/-- The resolver of the HTML standard in an attribute value. -/
def attrRef (T : NamedRefs) : Resolver
  | [] => none
  | c :: s =>
    if c = '#' then hashRef s else if isAsciiAlnum c then nameRef T (c :: s) else none

variable {d : Char}

theorem attrRef_hexadecimal (T : NamedRefs) (hd : d = 'x' ∨ d = 'X') (t : Text) :
    attrRef T ('#' :: d :: t) = (numericRef hexadecimal t).map fun (r, n) => (r, n + 2) :=
  if_pos hd

theorem attrRef_decimal (T : NamedRefs) (hd : ¬ (d = 'x' ∨ d = 'X')) (t : Text) :
    attrRef T ('#' :: d :: t) = (numericRef decimal (d :: t)).map fun (r, n) => (r, n + 1) :=
  if_neg hd

theorem attrRef_of_entry (T : NamedRefs) {c : Char} {name : Text} (hc : isAsciiAlnum c)
    (h : (c :: name ++ [';'], r) ∈ T.entries) (t : Text) :
    attrRef T (c :: name ++ ';' :: t) = some (r, (c :: name).length + 1) := by
  have hhash : c ≠ '#' := by rintro rfl; exact absurd hc (by decide)
  have hlast : (c :: name ++ [';']).getLast? = some ';' := getLast?_concat ..
  rw [cons_append, attrRef, if_neg hhash, if_pos hc, nameRef, ← cons_append,
    longest_eq_of_semicolon T h t, bind_some]
  dsimp only
  rw [if_neg (fun hn => hn.1 hlast), length_append]
  rfl

/-! ## How far a reference reaches -/

theorem numericRef_run (hq : ∀ c ∈ q, b.isDigit c) (hd : b.isDigit d = false) (t : Text) :
    numericRef b (q ++ d :: t) = if q.isEmpty then none
      else some ([refChar (b.number 0 q)], q.length + if d = ';' then 1 else 0) := by
  have htake : b.digits (q ++ d :: t) = q := by
    rw [Base.digits, takeWhile_append_of_pos hq, takeWhile_cons_of_neg (by rw [hd]; decide),
      append_nil]
  simp [numericRef, htake]

/-- A table whose names are made of letters and digits, up to the semicolon. -/
structure PlainRefs extends NamedRefs where
  /-- The characters of names. -/
  plain : ∀ e ∈ entries, ∀ c ∈ e.1, isAsciiAlnum c ∨ c = ';'

def basicPlainRefs : PlainRefs where
  toNamedRefs := basicNamedRefs
  plain e he c hc := by
    have hall : basicRefs.all fun e => e.1.all fun c => isAsciiAlnum c || c == ';' := by decide
    have h := List.all_eq_true.1 (List.all_eq_true.1 hall e he) c hc
    rwa [Bool.or_eq_true, beq_iff_eq] at h

theorem longest_congr {s' : Text}
    (h : ∀ e ∈ es, e.1.isPrefixOf s = e.1.isPrefixOf s') : longest es s = longest es s' := by
  induction es with
  | nil => rfl
  | cons e es ih =>
    rw [longest, longest, ih fun f hf => h f (.tail _ hf), h e (.head _)]

theorem PlainRefs.prefix_run_iff (T : PlainRefs) (hd : isAsciiAlnum d = false)
    {e : Text × Text} (he : e ∈ T.entries) {t : Text} :
    e.1 <+: q ++ d :: t ↔ e.1 <+: q ∨ (d = ';' ∧ e.1 = q ++ [';']) := by
  constructor
  · intro h
    rcases le_total e.1.length q.length with hlen | hlen
    · exact .inl (prefix_of_prefix_length_le h ( prefix_append q _) hlen)
    obtain ⟨u, hu⟩ := prefix_of_prefix_length_le ( prefix_append q _) h hlen
    cases u with
    | nil => exact .inl ⟨[], by rw [← hu, append_nil, append_nil]⟩
    | cons c u =>
      right
      rw [← hu, prefix_append_right_inj] at h
      obtain rfl : c = d := (cons_prefix_cons.1 h).1
      have hmem : c ∈ e.1 := hu ▸ mem_append_right _ (.head _)
      obtain rfl : c = ';' := (T.plain e he c hmem).resolve_left (by rw [hd]; decide)
      refine ⟨rfl, ?_⟩
      cases u using reverseRecOn with
      | nil => exact hu.symm
      | append_singleton u c =>
        -- A semicolon is the last character of a name.
        refine absurd ?_ (T.semicolon_last e he)
        rw [← hu, ← cons_append, ← append_assoc, dropLast_concat]
        exact mem_append_right _ (.head _)
  · rintro (h | ⟨rfl, h⟩)
    · exact h.trans <| prefix_append q _
    · rw [h]
      exact ⟨t, by simp⟩

theorem PlainRefs.nameRef_congr (T : PlainRefs) {d' : Char}
    (hd : isAsciiAlnum d = false) (hd' : isAsciiAlnum d' = false)
    (hsemi : d = ';' ↔ d' = ';') (heq : d = '=' ↔ d' = '=') (t t' : Text) :
    nameRef T.toNamedRefs (q ++ d :: t) = nameRef T.toNamedRefs (q ++ d' :: t') := by
  have hlongest : longest T.entries (q ++ d :: t) = longest T.entries (q ++ d' :: t') := by
    refine longest_congr fun e he => ?_
    rw [Bool.eq_iff_iff, isPrefixOf_iff_prefix, isPrefixOf_iff_prefix,
      T.prefix_run_iff hd he, T.prefix_run_iff hd' he, hsemi]
  rw [nameRef, nameRef, ← hlongest]
  cases hf : longest T.entries (q ++ d :: t) with
  | none => rfl
  | some f =>
    obtain ⟨name, r⟩ := f
    obtain ⟨hmem, hpre, _⟩ := longest_spec hf
    rw [bind_some, bind_some]
    dsimp only
    rcases (T.prefix_run_iff hd hmem).1 hpre with ⟨u, rfl⟩ | ⟨_, hname⟩
    · -- What follows the name is a letter or a digit, or what follows them.
      rw [append_assoc, append_assoc, drop_left, drop_left]
      cases u with
      | nil =>
        have hdd : (d == '=' || isAsciiAlnum d) = (d' == '=' || isAsciiAlnum d') := by
          rw [hd, hd', Bool.or_false, Bool.or_false, Bool.eq_iff_iff, beq_iff_eq, beq_iff_eq, heq]
        rw [nil_append, nil_append, head?_cons, head?_cons, any_some, any_some, hdd]
      | cons c u => rfl
    · have hlast : name.getLast? = some ';' := by
        rw [show name = q ++ [';'] from hname, getLast?_concat]
      rw [if_neg fun h => h.1 hlast, if_neg fun h => h.1 hlast]

theorem PlainRefs.length_le_of_nameRef (T : PlainRefs)
    (hd : isAsciiAlnum d = false) {t : Text} {n : Nat}
    (h : nameRef T.toNamedRefs (q ++ d :: t) = some (r, n)) :
    n ≤ q.length + if d = ';' then 1 else 0 := by
  rw [nameRef, bind_eq_some_iff] at h
  obtain ⟨f, hf, h⟩ := h
  obtain ⟨hmem, hpre, _⟩ := longest_spec hf
  dsimp only at h
  split_ifs at h
  obtain ⟨_, rfl⟩ := Prod.mk.inj (some.inj h)
  rcases (T.prefix_run_iff hd hmem).1 hpre with hpre | ⟨rfl, hname⟩
  · exact hpre.length_le.trans (Nat.le_add_right _ _)
  · rw [hname, length_append]
    exact le_rfl

theorem PlainRefs.nameRef_equals (T : PlainRefs) (hq : ∀ c ∈ q, isAsciiAlnum c)
    (t : Text) : nameRef T.toNamedRefs (q ++ '=' :: t) = none := by
  rw [nameRef]
  cases hf : longest T.entries (q ++ '=' :: t) with
  | none => rfl
  | some f =>
    obtain ⟨name, r⟩ := f
    obtain ⟨hmem, hpre, _⟩ := longest_spec hf
    obtain ⟨u, rfl⟩ := ((T.prefix_run_iff (by decide) hmem).1 hpre).resolve_right
      fun h => absurd h.1 (by decide)
    refine if_pos ⟨fun hlast => ?_, ?_⟩
    · have hsemi := hq ';' (mem_append_left _ (mem_of_getLast? hlast))
      exact absurd hsemi (by decide)
    rw [append_assoc, drop_left]
    cases u with
    | nil => rfl
    | cons c u =>
      have hc := hq c (mem_append_right _ (.head _))
      rw [cons_append, head?_cons, any_some, hc, Bool.or_true]

/-- The value of an attribute whose text in the markup is `s`. -/
def decodeAttr (T : NamedRefs) (s : Text) : Text := decodeRefs (attrRef T) s

theorem decodeAttr_eq_self (T : NamedRefs) (h : '&' ∉ s) : decodeAttr T s = s :=
  decodeRefs_eq_self _ h

end ZeroProxy.Html
