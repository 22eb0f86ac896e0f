import ZeroProxy.Text.Basic
import ZeroProxy.Bytes.Source
import Mathlib.Algebra.Order.Group.Nat

/-!
# Searching and encoding texts

The operations of `str` that URL code is written with: finding a text in another,
splitting at a character, dropping a suffix character, percent-encoding.
-/

namespace ZeroProxy.Text

open List Option

/-- The index of the first place where `s` continues with `p`. -/
def find (p : Text) : Text → Option Nat
  | [] => if p.isEmpty then some 0 else none
  | c :: s => if p.isPrefixOf (c :: s) then some 0 else (find p s).map (· + 1)

/-- The index of the first character in `p`. -/
def findChar (p : Char → Bool) (s : Text) : Option Nat := s.findIdx? p

/-- The index of the last character in `p`. -/
def rfindChar (p : Char → Bool) (s : Text) : Option Nat :=
  (s.reverse.findIdx? p).map (s.length - 1 - ·)

/-- The parts of `s` between the characters in `p`. -/
def split (p : Char → Bool) (s : Text) : List Text := s.splitOnP p

def contains (s p : Text) : Bool := (find p s).isSome

/-- `s` without the characters `c` at its end. -/
def trimEndMatches (c : Char) (s : Text) : Text := s.rdropWhile (· == c)

/-- `s` without `p` at its head. -/
def stripPrefix (p s : Text) : Option Text :=
  if p.isPrefixOf s then some (s.drop p.length) else none

/-- `s` without `p` at its end. -/
def stripSuffix (p s : Text) : Option Text :=
  if p.isSuffixOf s then some (s.take (s.length - p.length)) else none

def hexDigit (n : Nat) : Char := if n < 10 then Char.ofNat (0x30 + n) else Char.ofNat (0x37 + n)

/-- The UTF-8 bytes of `s`, those not in `keep` written `%XX`. -/
def percentEncode (keep : Char → Bool) (s : Text) : Text :=
  s.flatMap fun c => (String.utf8EncodeChar c).flatMap fun b =>
    let d := Char.ofNat b.toNat
    if b.toNat < 0x80 && keep d then [d] else ['%', hexDigit (b.toNat / 16), hexDigit (b.toNat % 16)]

theorem isAsciiAlnum_hexDigit {n : Nat} (h : n < 16) : isAsciiAlnum (hexDigit n) := by
  have hall : ∀ n : Fin 16, isAsciiAlnum (hexDigit n) := by decide
  exact hall ⟨n, h⟩

variable {c : Char}

theorem not_mem_percentEncode {keep : Char → Bool} (hkeep : keep c = false)
    (hc : isAsciiAlnum c = false) (hpercent : c ≠ '%') (s : Text) : c ∉ percentEncode keep s := by
  intro h
  rw [percentEncode] at h
  obtain ⟨d, -, h⟩ := mem_flatMap.1 h
  obtain ⟨b, -, h⟩ := mem_flatMap.1 h
  have hdigit {n : Nat} (hn : n < 16) : c ≠ hexDigit n := by
    rintro rfl
    rw [isAsciiAlnum_hexDigit hn] at hc
    cases hc
  dsimp only at h
  split at h
  · next hb =>
    rw [← mem_singleton.1 h, hkeep, Bool.and_false] at hb
    cases hb
  have hb := b.toNat_lt
  simp only [mem_cons, not_mem_nil, or_false] at h
  rcases h with h | h | h
  · exact hpercent h
  · exact hdigit (by omega) h
  · exact hdigit (by omega) h

def hexByte (b : UInt8) : Option UInt8 :=
  if 0x30 ≤ b ∧ b ≤ 0x39 then some (b - 0x30)
  else if 0x61 ≤ b ∧ b ≤ 0x66 then some (b - 0x57)
  else if 0x41 ≤ b ∧ b ≤ 0x46 then some (b - 0x37)
  else none

/-- Bytes with every `%XX` decoded; a `%` without two digits stays. -/
def percentDecodeBytes : List UInt8 → List UInt8
  | [] => []
  | 0x25 :: h :: l :: bs =>
    match hexByte h, hexByte l with
    | some x, some y => (x <<< 4 ||| y) :: percentDecodeBytes bs
    | _, _ => 0x25 :: percentDecodeBytes (h :: l :: bs)
  | b :: bs => b :: percentDecodeBytes bs

/-- The text with every `%XX` decoded, or the text itself when that is no UTF-8. -/
def percentDecode (s : Text) : Text :=
  match String.fromUTF8? ⟨(percentDecodeBytes (s.flatMap String.utf8EncodeChar)).toArray⟩ with
  | some t => t.toList
  | none => s

theorem find_append {p q : Text} (hq : c ∉ q) (t : Text) :
    find (c :: p) (q ++ t) = (find (c :: p) t).map (· + q.length) := by
  induction q with
  | nil => simp
  | cons d q ih =>
    rw [mem_cons, not_or] at hq
    rw [cons_append, find, isPrefixOf_cons_cons, beq_eq_false_iff_ne.2 hq.1, Bool.false_and,
      ih hq.2, Option.map_map]
    rfl

theorem isSome_find (p q t : Text) : (find p (q ++ (p ++ t))).isSome := by
  induction q with
  | nil =>
    cases h : p ++ t with
    | nil => simp [find, (append_eq_nil_iff.1 h).1]
    | cons c s =>
      have hp : p.isPrefixOf (c :: s) := by
        rw [← h, isPrefixOf_iff_prefix]
        exact prefix_append p t
      rw [nil_append, find, if_pos hp, isSome_some]
  | cons d q ih =>
    rw [cons_append, find]
    split
    · rfl
    · rw [isSome_map, ih]

theorem startsWithCI_take {s p : Text} {n : Nat} (h : startsWithCI s p) (hn : p.length ≤ n) :
    startsWithCI (s.take n) p := by
  obtain ⟨q, t, rfl, hq⟩ := startsWithCI_iff_exists.1 h
  have hlen : q.length = p.length := by simpa using congrArg length hq
  rw [take_append, take_of_length_le (hlen ▸ hn)]
  exact startsWithCI_iff_exists.2 ⟨q, _, rfl, hq⟩

/-! ## Joined texts -/

variable {sep : Text} {vs : List Text}

theorem mem_intercalate (h : c ∈ sep.intercalate vs) : c ∈ sep ∨ ∃ v ∈ vs, c ∈ v := by
  induction vs with
  | nil => cases h
  | cons v vs ih =>
    cases vs with
    | nil =>
      rw [intercalate_singleton] at h
      exact .inr ⟨v, .head _, h⟩
    | cons w vs =>
      rw [intercalate_cons_cons, mem_append, mem_append] at h
      rcases h with (h | h) | h
      · exact .inr ⟨v, .head _, h⟩
      · exact .inl h
      · rcases ih h with h | ⟨x, hx, h⟩
        · exact .inl h
        · exact .inr ⟨x, .tail _ hx, h⟩

theorem head?_intercalate {v : Text} (hv : v ≠ []) :
    (sep.intercalate (v :: vs)).head? = v.head? := by
  obtain ⟨c, v, rfl⟩ := exists_cons_of_ne_nil hv
  cases vs with
  | nil => rw [intercalate_singleton]
  | cons w vs => rw [intercalate_cons_cons]; rfl

theorem intercalate_ne_nil (hvs : vs ≠ []) (h : ∀ v ∈ vs, v ≠ []) : sep.intercalate vs ≠ [] := by
  obtain ⟨v, vs, rfl⟩ := exists_cons_of_ne_nil hvs
  have hhead := @head?_intercalate sep vs v (h v (.head _))
  intro hnil
  rw [hnil, head?_nil, eq_comm, head?_eq_none_iff] at hhead
  exact h v (.head _) hhead

theorem getLast?_intercalate (hvs : vs ≠ []) (h : ∀ v ∈ vs, v ≠ []) :
    (sep.intercalate vs).getLast? = (vs.getLast hvs).getLast? := by
  induction vs with
  | nil => exact absurd rfl hvs
  | cons v vs ih =>
    cases vs with
    | nil => rw [intercalate_singleton]; rfl
    | cons w vs =>
      have hne : w :: vs ≠ [] := cons_ne_nil w vs
      have h' := fun u hu => h u (.tail _ hu)
      rw [intercalate_cons_cons, getLast?_append_of_ne_nil _ (intercalate_ne_nil hne h'),
        ih hne h', getLast_cons hne]

theorem stripBoth_eq_self {p : Char → Bool} {s : Text} (hhead : s.head?.any p = false)
    (hlast : s.getLast?.any p = false) : stripBoth p s = s := by
  cases s with
  | nil => rfl
  | cons c t =>
    rw [head?_cons, any_some] at hhead
    rw [stripBoth, dropWhile_cons_of_neg (Bool.eq_false_iff.1 hhead), rdropWhile_eq_self_iff]
    intro hne
    rw [getLast?_eq_some_getLast hne] at hlast
    exact Bool.eq_false_iff.1 hlast

/-! ## Percent-encoding

A text is written in ASCII, byte by byte: a byte stands for itself, or is `%` and two digits. -/

open Bytes

/-! ### Characters of ASCII -/

variable {n : Nat}

theorem toNat_ofNat_of_lt (hn : n < 128) : (Char.ofNat n).toNat = n := by
  have hv : n.isValidChar := .inl (by omega)
  rw [Char.ofNat, dif_pos hv]
  rfl

variable {c : Char}

theorem utf8EncodeChar_of_lt (hc : c.toNat < 128) :
    String.utf8EncodeChar c = [UInt8.ofNat c.toNat] :=
  if_pos (Nat.le_of_lt_succ hc)

@[simp] theorem utf8_nil : utf8 [] = [] := rfl

theorem utf8_append (s t : Text) : utf8 (s ++ t) = utf8 s ++ utf8 t := flatMap_append

theorem utf8_cons_of_lt (hc : c.toNat < 128) (s : Text) :
    utf8 (c :: s) = UInt8.ofNat c.toNat :: utf8 s := by
  rw [utf8, flatMap_cons, utf8EncodeChar_of_lt hc]
  rfl

/-! ### One byte -/

/-- A byte, written as percent-encoding writes it. -/
def encodeByte (keep : Char → Bool) (b : UInt8) : Text :=
  if b.toNat < 0x80 && keep (Char.ofNat b.toNat) then [Char.ofNat b.toNat]
  else ['%', hexDigit (b.toNat / 16), hexDigit (b.toNat % 16)]

theorem percentEncode_eq (keep : Char → Bool) (s : Text) :
    percentEncode keep s = (utf8 s).flatMap (encodeByte keep) := flatMap_assoc.symm

theorem toNat_hexDigit_lt (hn : n < 16) : (hexDigit n).toNat < 128 := by
  have hall : ∀ n : Fin 16, (hexDigit n).toNat < 128 := by decide
  exact hall ⟨n, hn⟩

theorem hexByte_hexDigit (hn : n < 16) :
    hexByte (UInt8.ofNat (hexDigit n).toNat) = some (UInt8.ofNat n) := by
  have hall : ∀ n : Fin 16, hexByte (UInt8.ofNat (hexDigit n).toNat) = some (UInt8.ofNat n) := by
    decide
  exact hall ⟨n, hn⟩

variable {keep : Char → Bool}

theorem mem_encodeByte {b : UInt8} (h : c ∈ encodeByte keep b) :
    c.toNat < 128 ∧ (keep c ∨ c = '%' ∨ isAsciiAlnum c) := by
  have hb := b.toNat_lt
  rw [encodeByte] at h
  split at h
  · next hk =>
    rw [Bool.and_eq_true, decide_eq_true_eq] at hk
    rw [mem_singleton.1 h, toNat_ofNat_of_lt hk.1]
    exact ⟨hk.1, .inl hk.2⟩
  · simp only [mem_cons, not_mem_nil, or_false] at h
    rcases h with rfl | rfl | rfl
    · exact ⟨by decide, .inr (.inl rfl)⟩
    · exact ⟨toNat_hexDigit_lt (by omega), .inr (.inr (isAsciiAlnum_hexDigit (by omega)))⟩
    · exact ⟨toNat_hexDigit_lt (by omega), .inr (.inr (isAsciiAlnum_hexDigit (by omega)))⟩

theorem percentDecodeBytes_cons {b : UInt8} (hb : b ≠ 0x25) (bs : List UInt8) :
    percentDecodeBytes (b :: bs) = b :: percentDecodeBytes bs := by
  rw [percentDecodeBytes.eq_def]
  split
  · next h => cases h
  · next h => exact absurd (cons.inj h).1 hb
  · next h =>
    obtain ⟨rfl, rfl⟩ := cons.inj h
    rfl

theorem percentDecodeBytes_digits {h l x y : UInt8} (hh : hexByte h = some x)
    (hl : hexByte l = some y) (bs : List UInt8) :
    percentDecodeBytes (0x25 :: h :: l :: bs) = (x <<< 4 ||| y) :: percentDecodeBytes bs := by
  rw [percentDecodeBytes, hh, hl]

theorem shiftLeft_or_digits (b : UInt8) :
    UInt8.ofNat (b.toNat / 16) <<< 4 ||| UInt8.ofNat (b.toNat % 16) = b := by
  have hall : ∀ n : Fin 256, UInt8.ofNat (n / 16) <<< 4 ||| UInt8.ofNat (n % 16) = UInt8.ofNat n := by
    decide +kernel
  have hb := hall ⟨b.toNat, b.toNat_lt⟩
  rwa [UInt8.ofNat_toNat] at hb

theorem percentDecodeBytes_encodeByte (hkeep : keep '%' = false) (b : UInt8) (bs : List UInt8) :
    percentDecodeBytes (utf8 (encodeByte keep b) ++ bs) = b :: percentDecodeBytes bs := by
  have hb := b.toNat_lt
  rw [encodeByte]
  split
  · next hk =>
    rw [Bool.and_eq_true, decide_eq_true_eq] at hk
    have hne : b ≠ 0x25 := by
      rintro rfl
      rw [show Char.ofNat (0x25 : UInt8).toNat = '%' from rfl, hkeep] at hk
      cases hk.2
    rw [utf8_cons_of_lt (by rw [toNat_ofNat_of_lt hk.1]; exact hk.1), toNat_ofNat_of_lt hk.1,
      UInt8.ofNat_toNat, utf8_nil, singleton_append, percentDecodeBytes_cons hne]
  have hhigh : b.toNat / 16 < 16 := by omega
  have hlow : b.toNat % 16 < 16 := by omega
  rw [utf8_cons_of_lt (by decide), utf8_cons_of_lt (toNat_hexDigit_lt hhigh),
    utf8_cons_of_lt (toNat_hexDigit_lt hlow)]
  exact (percentDecodeBytes_digits (hexByte_hexDigit hhigh) (hexByte_hexDigit hlow) bs).trans
    (congrArg (· :: _) (shiftLeft_or_digits b))

/-! ### Whole texts -/

theorem mem_percentEncode {s : Text}
    (h : c ∈ percentEncode keep s) : c.toNat < 128 ∧ (keep c ∨ c = '%' ∨ isAsciiAlnum c) := by
  rw [percentEncode_eq] at h
  obtain ⟨b, -, h⟩ := mem_flatMap.1 h
  exact mem_encodeByte h

theorem percentEncode_eq_self {s : Text}
    (h : ∀ c ∈ s, c.toNat < 128 ∧ keep c) : percentEncode keep s = s := by
  rw [percentEncode_eq]
  induction s with
  | nil => rfl
  | cons c s ih =>
    obtain ⟨hc, hk⟩ := h c (.head _)
    have hbyte : (UInt8.ofNat c.toNat).toNat = c.toNat := Nat.mod_eq_of_lt (by omega)
    rw [utf8_cons_of_lt hc, flatMap_cons, ih fun d hd => h d (.tail _ hd),
      encodeByte, hbyte, Char.ofNat_toNat, hk, if_pos (by simpa using hc)]
    rfl

theorem percentDecodeBytes_percentEncode (hkeep : keep '%' = false)
    (s : Text) : percentDecodeBytes (utf8 (percentEncode keep s)) = utf8 s := by
  rw [percentEncode_eq]
  induction utf8 s with
  | nil => rfl
  | cons b bs ih =>
    rw [flatMap_cons, utf8_append, percentDecodeBytes_encodeByte hkeep, ih]

/-! ## Parts

The last occurrence of a text in another, the length of a text in bytes, and texts made of fields:
joined by a separator, and split again; with numbers as fields. -/

/-! ### The end of a text -/

/-- The index of the last place where `s` continues with `p`, which is not empty. -/
def rfind (p : Text) : Text → Option Nat
  | [] => none
  | c :: s =>
    match rfind p s with
    | some i => some (i + 1)
    | none => if p.isPrefixOf (c :: s) then some 0 else none

/-- `p` occurs in `p ++ t` at its head only. -/
def LastIn (p t : Text) : Prop := ∀ x y, p ++ t = x ++ (p ++ y) → x = []

variable {p t : Text}

theorem rfind_eq_none (hp : p ≠ []) {s : Text} : rfind p s = none ↔ ∀ x y, s ≠ x ++ (p ++ y) := by
  induction s with
  | nil =>
    refine ⟨fun _ x y h => ?_, fun _ => rfl⟩
    exact hp (append_eq_nil_iff.1 (append_eq_nil_iff.1 h.symm).2).1
  | cons c s ih =>
    rw [rfind]
    cases hr : rfind p s with
    | some i =>
      refine ⟨fun h => absurd h (some_ne_none _), fun h => ?_⟩
      refine absurd (ih.2 fun x y hs => h (c :: x) y (by rw [hs, cons_append])) ?_
      rw [hr]
      exact some_ne_none _
    | none =>
      dsimp only
      split
      · next hpre =>
        obtain ⟨y, hy⟩ := isPrefixOf_iff_prefix.1 hpre
        exact ⟨fun h => absurd h (some_ne_none _), fun h => absurd hy.symm (h [] y)⟩
      · next hpre =>
        refine ⟨fun _ x y h => ?_, fun _ => rfl⟩
        cases x with
        | nil => exact hpre <| isPrefixOf_iff_prefix.2 ⟨y, h.symm⟩
        | cons d x => exact ih.1 hr x y (cons.inj h).2

theorem rfind_append (hp : p ≠ []) (ht : LastIn p t) (x : Text) :
    rfind p (x ++ (p ++ t)) = some x.length := by
  induction x with
  | nil =>
    obtain ⟨c, q, rfl⟩ := exists_cons_of_ne_nil hp
    have hnone : rfind (c :: q) (q ++ t) = none := (rfind_eq_none hp).2 fun x y h =>
      absurd (ht (c :: x) y (congrArg (c :: ·) h)) (cons_ne_nil _ _)
    have hpre : (c :: q).isPrefixOf (c :: (q ++ t)) :=
      isPrefixOf_iff_prefix.2 ⟨t, rfl⟩
    rw [nil_append, cons_append, rfind, hnone]
    rw [if_pos hpre, length_nil]
  | cons d x ih => rw [cons_append, rfind, ih, length_cons]

theorem exists_of_rfind (hp : p ≠ []) {s : Text} {i : Nat} (h : rfind p s = some i) :
    ∃ x t, s = x ++ (p ++ t) ∧ x.length = i ∧ LastIn p t := by
  induction s generalizing i with
  | nil => cases h
  | cons c s ih =>
    rw [rfind] at h
    cases hr : rfind p s with
    | some j =>
      rw [hr] at h
      cases h
      obtain ⟨x, t, rfl, hx, ht⟩ := ih hr
      exact ⟨c :: x, t, rfl, by rw [length_cons, hx], ht⟩
    | none =>
      rw [hr] at h
      dsimp only at h
      split at h
      · next hpre =>
        cases h
        obtain ⟨t, ht⟩ := isPrefixOf_iff_prefix.1 hpre
        refine ⟨[], t, ht.symm, rfl, fun x y hxy => ?_⟩
        cases x with
        | nil => rfl
        | cons d x =>
          rw [ht] at hxy
          exact absurd (cons.inj hxy).2 ((rfind_eq_none hp).1 hr x y)
      · cases h

variable {c : Char}

theorem rfindChar_append {p : Char → Bool} (hc : p c)
    (ht : ∀ d ∈ t, p d = false) (x : Text) : rfindChar p (x ++ c :: t) = some x.length := by
  have hidx : (t.reverse ++ (c :: x.reverse)).findIdx? p = some t.length := by
    rw [findIdx?_append, findIdx?_eq_none_iff.2 fun d hd => ht d (mem_reverse.1 hd),
      findIdx?_cons, if_pos hc]
    simp
  rw [rfindChar, reverse_append, reverse_cons, append_assoc, singleton_append, hidx, map_some]
  simp

theorem rfindChar_eq_none {p : Char → Bool} (ht : ∀ d ∈ t, p d = false) : rfindChar p t = none := by
  rw [rfindChar, findIdx?_eq_none_iff.2 fun d hd => ht d (mem_reverse.1 hd), map_none]

theorem exists_last_line (p : Char → Bool) (s : Text) : (∀ d ∈ s, p d = false) ∨
    ∃ x c t, s = x ++ c :: t ∧ p c ∧ ∀ d ∈ t, p d = false := by
  induction s with
  | nil => exact .inl nofun
  | cons c s ih =>
    rcases ih with hs | ⟨x, d, t, rfl, hd, ht⟩
    · cases hc : p c with
      | true => exact .inr ⟨[], c, s, rfl, hc, hs⟩
      | false => exact .inl (forall_mem_cons.2 ⟨hc, hs⟩)
    · exact .inr ⟨c :: x, d, t, rfl, hd, ht⟩

/-- The number of bytes of `s` in UTF-8. -/
def utf8Len (s : Text) : Nat := (s.map Char.utf8Size).sum

@[simp] theorem utf8Len_nil : utf8Len [] = 0 := rfl

@[simp] theorem utf8Len_cons (c : Char) (s : Text) : utf8Len (c :: s) = c.utf8Size + utf8Len s := rfl

@[simp] theorem utf8Len_append (s t : Text) : utf8Len (s ++ t) = utf8Len s + utf8Len t := by
  rw [utf8Len, map_append, sum_append, utf8Len, utf8Len]

/-- `s` from byte `n` on, or from the beginning of the character that byte `n` is in. -/
def dropBytes : Nat → Text → Text
  | _, [] => []
  | n, c :: s => if c.utf8Size ≤ n then dropBytes (n - c.utf8Size) s else c :: s

variable {n : Nat}

theorem dropBytes_append {x : Text} (h : n ≤ utf8Len x) (y : Text) :
    ∃ x₁ x₂, x = x₁ ++ x₂ ∧ dropBytes n (x ++ y) = x₂ ++ y := by
  induction x generalizing n with
  | nil =>
    refine ⟨[], [], rfl, ?_⟩
    rw [Nat.le_zero.1 h]
    cases y with
    | nil => rfl
    | cons c y => exact if_neg (not_le.2 c.utf8Size_pos)
  | cons c x ih =>
    rw [cons_append, dropBytes]
    split
    · rw [utf8Len_cons] at h
      obtain ⟨x₁, x₂, rfl, hd⟩ := @ih (n - c.utf8Size) (by omega)
      exact ⟨c :: x₁, x₂, rfl, hd⟩
    · exact ⟨[], c :: x, rfl, rfl⟩

theorem exists_dropBytes (n : Nat) (s : Text) : ∃ x, s = x ++ dropBytes n s ∧
    ∀ c t, dropBytes n s = c :: t → n < utf8Len x + c.utf8Size := by
  induction s generalizing n with
  | nil => exact ⟨[], rfl, fun _ _ h => absurd h (cons_ne_nil _ _).symm⟩
  | cons d s ih =>
    rw [dropBytes]
    split
    · obtain ⟨x, hx, hn⟩ := ih (n - d.utf8Size)
      refine ⟨d :: x, by rw [cons_append, ← hx], fun c t h => ?_⟩
      have hlt := hn c t h
      rw [utf8Len_cons]
      omega
    · next hd =>
      refine ⟨[], rfl, fun c t h => ?_⟩
      cases h
      rw [utf8Len_nil]
      omega

/-! ### Fields -/

/-- The fields with `sep` between them. -/
def joined (sep : Char) (fields : List Text) : Text := [sep].intercalate fields

@[simp] theorem joined_singleton (sep : Char) (f : Text) : joined sep [f] = f :=
  intercalate_singleton

theorem joined_cons_cons (sep : Char) (f g : Text) (fs : List Text) :
    joined sep (f :: g :: fs) = f ++ sep :: joined sep (g :: fs) := by
  rw [joined, intercalate_cons_cons, append_assoc, singleton_append, joined]

theorem split_joined {sep : Char} {fields : List Text} (hne : fields ≠ [])
    (h : ∀ f ∈ fields, sep ∉ f) : split (· == sep) (joined sep fields) = fields := by
  have hbeq {f : Text} (hf : sep ∉ f) : ∀ c ∈ f, (c == sep) = false := fun c hc =>
    beq_eq_false_iff_ne.2 fun e => hf (e ▸ hc)
  induction fields with
  | nil => exact absurd rfl hne
  | cons f fields ih =>
    rw [forall_mem_cons] at h
    cases fields with
    | nil =>
      rw [joined_singleton, split]
      exact splitOnP_eq_singleton (hbeq h.1)
    | cons g fields =>
      rw [joined_cons_cons, split, splitOnP_append_cons_of_forall_mem (hbeq h.1) sep
        (beq_self_eq_true sep), ← split, ih (cons_ne_nil _ _) h.2]

theorem not_mem_joined {sep : Char} (hc : c ≠ sep) {fields : List Text}
    (h : ∀ f ∈ fields, c ∉ f) : c ∉ joined sep fields := by
  intro hmem
  rcases mem_intercalate hmem with hsep | ⟨f, hf, hcf⟩
  · exact hc (mem_singleton.1 hsep)
  · exact h f hf hcf

/-! ### Numbers -/

def numeral (n : Nat) : Text := Nat.toDigits 10 n

/-- The number below `2 ^ 32` that a text writes, as `str::parse` reads it. -/
def parseU32 (s : Text) : Option Nat :=
  let digits := if s.head? = some '+' then s.tail else s
  if digits.isEmpty || !digits.all Char.isDigit then none
  else if Nat.ofDigitChars 10 digits 0 < 4294967296 then some (Nat.ofDigitChars 10 digits 0)
  else none

theorem isDigit_of_mem_numeral (h : c ∈ numeral n) : c.isDigit :=
  Nat.isDigit_of_mem_toDigits (by decide) (by decide) h

theorem parseU32_numeral (h : n < 4294967296) : parseU32 (numeral n) = some n := by
  have hne : numeral n ≠ [] := Nat.toDigits_ne_nil
  have hplus : ¬ (numeral n).head? = some '+' := fun hhead => by
    have hdigit := isDigit_of_mem_numeral (mem_of_mem_head? hhead)
    exact absurd hdigit (by decide)
  have hall : (numeral n).all Char.isDigit :=
    all_eq_true.2 fun c hc => isDigit_of_mem_numeral hc
  have hvalue : Nat.ofDigitChars 10 (numeral n) 0 = n := Nat.ofDigitChars_ten_toDigits
  have hempty : (numeral n).isEmpty = false := isEmpty_eq_false_iff.2 hne
  rw [parseU32, if_neg hplus, hempty, hall, hvalue, if_neg (by decide), if_pos h]

theorem not_mem_numeral (hc : c.isDigit = false) (n : Nat) : c ∉ numeral n := fun h =>
  absurd (isDigit_of_mem_numeral h) (by rw [hc]; exact Bool.false_ne_true)

/-! ## Lines and columns

Both are counted from zero, columns in UTF-16 code units; only `\n` ends a line. -/

def utf16Size (c : Char) : Nat := if c.toNat < 0x10000 then 1 else 2

/-- The line and the column after one more character. -/
def advance (pos : Nat × Nat) (c : Char) : Nat × Nat :=
  if c = '\n' then (pos.1 + 1, 0) else (pos.1, pos.2 + utf16Size c)

def lineCol (s : Text) : Nat × Nat := s.foldl advance (0, 0)

theorem lineCol_concat (s : Text) (c : Char) : lineCol (s ++ [c]) = advance (lineCol s) c := by
  rw [lineCol, foldl_append]
  rfl

theorem lineCol_le (s t : Text) : (lineCol s).1 < (lineCol (s ++ t)).1 ∨
    (lineCol s).1 = (lineCol (s ++ t)).1 ∧ (lineCol s).2 ≤ (lineCol (s ++ t)).2 := by
  induction t using reverseRecOn with
  | nil =>
    rw [append_nil]
    exact .inr ⟨rfl, le_refl _⟩
  | append_singleton t c ih =>
    rw [← append_assoc, lineCol_concat, advance]
    split
    · -- A new line has begun.
      omega
    · dsimp only
      omega

theorem line_append (s t : Text) : (lineCol (s ++ t)).1 = (lineCol s).1 + t.count '\n' := by
  induction t using reverseRecOn with
  | nil => rw [append_nil, count_nil, add_zero]
  | append_singleton t c ih =>
    rw [← append_assoc, lineCol_concat, advance, count_append, count_singleton]
    split
    · next hc => simp [hc, ih, add_assoc]
    · next hc => simp [hc, ih]

/-- The places in a text right after its newlines, counted from `k`. -/
def breaks : Nat → Text → List Nat
  | _, [] => []
  | k, c :: s => if c = '\n' then (k + 1) :: breaks (k + 1) s else breaks (k + 1) s

theorem breaks_succ (k : Nat) (s : Text) : breaks (k + 1) s = (breaks k s).map (· + 1) := by
  induction s generalizing k with
  | nil => rfl
  | cons c s ih =>
    rw [breaks, breaks, ih]
    split
    · rw [map_cons]
    · rfl

theorem le_of_mem_breaks {k j : Nat} {s : Text} (h : j ∈ breaks k s) : k < j ∧ j ≤ k + s.length := by
  induction s generalizing k with
  | nil => cases h
  | cons c s ih =>
    rw [length_cons]
    rw [breaks] at h
    split at h
    · rcases mem_cons.1 h with rfl | h
      · omega
      · have := ih h
        omega
    · have := ih h
      omega

theorem pairwise_breaks (k : Nat) (s : Text) : (breaks k s).Pairwise (· ≤ ·) := by
  induction s generalizing k with
  | nil => exact List.Pairwise.nil
  | cons c s ih =>
    rw [breaks]
    split
    · exact pairwise_cons.2 ⟨fun j hj => le_of_lt (le_of_mem_breaks hj).1, ih (k + 1)⟩
    · exact ih (k + 1)

theorem getElem?_of_mem_breaks {k j : Nat} {s : Text} (h : j ∈ breaks k s) :
    s[j - (k + 1)]? = some '\n' := by
  induction s generalizing k with
  | nil => cases h
  | cons c s ih =>
    rw [breaks] at h
    have hlater (h : j ∈ breaks (k + 1) s) : (c :: s)[j - (k + 1)]? = some '\n' := by
      have hlt := (le_of_mem_breaks h).1
      rw [show j - (k + 1) = j - (k + 1 + 1) + 1 from by omega]
      exact ih h
    split at h
    · next hc =>
      rcases mem_cons.1 h with rfl | h
      · rw [Nat.sub_self, getElem?_cons_zero, hc]
      · exact hlater h
    · exact hlater h

end ZeroProxy.Text
