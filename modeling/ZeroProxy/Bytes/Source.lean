import Mathlib.Data.List.Basic
import Mathlib.Algebra.Ring.Nat

/-!
# Bytes

Bytes and the characters they stand for. Encoding and strict decoding are those of the
standard library; a strict decoder accepts the encodings and nothing else. The lossy decoder
puts U+FFFD in place of what is no character: of the longest beginning of one that could not
go on.

A source is what a program reads from a connection: segments that arrive one after the other, and
what comes after the last of them. A read returns some of the segment that is next, at most as much
as it asks for; how the stream is cut into segments is not up to the reader.
-/

namespace ZeroProxy.Bytes

section

open List

/-- A text in UTF-8. -/
def utf8 (t : List Char) : List UInt8 := t.flatMap String.utf8EncodeChar

/-- `String::from_utf8`, when it succeeds. -/
def fromUtf8 (s : List UInt8) : Option (List Char) := s.toByteArray.utf8Decode?.map Array.toList

theorem fromUtf8_utf8 (t : List Char) : fromUtf8 (utf8 t) = some t := by
  have h : t.utf8Encode.utf8Decode? = some t.toArray := utf8Decode?_utf8Encode
  rw [utf8Encode] at h
  rw [fromUtf8, utf8, h, Option.map_some]

/-! ## Lossy decoding -/

/-- A continuation byte of UTF-8. -/
def isTail (b : UInt8) : Bool := 0x80 ≤ b && b ≤ 0xbf

/-- How many bytes follow a byte that begins a character of more than one byte, and the range
    of the next one. -/
def lead (a : UInt8) : Option (Nat × UInt8 × UInt8) :=
  if 0xc2 ≤ a && a ≤ 0xdf then some (1, 0x80, 0xbf)
  else if a == 0xe0 then some (2, 0xa0, 0xbf)
  else if a == 0xed then some (2, 0x80, 0x9f)
  else if 0xe1 ≤ a && a ≤ 0xef then some (2, 0x80, 0xbf)
  else if a == 0xf0 then some (3, 0x90, 0xbf)
  else if 0xf1 ≤ a && a ≤ 0xf3 then some (3, 0x80, 0xbf)
  else if a == 0xf4 then some (3, 0x80, 0x8f)
  else none

/-- The character of a code point in pieces: the low bits of the first byte, then six bits of
    each of the others. -/
def assemble (bits : Nat) (a : UInt8) (tails : List UInt8) : Char :=
  Char.ofNat (tails.foldl (fun n b => 64 * n + b.toNat % 64) (a.toNat % bits))

def asciiChar (b : UInt8) : Char := Char.ofNat b.toNat

/-- What stands for bytes that are not UTF-8. -/
def replacement : Char := '�'

/-- `String::from_utf8_lossy`. -/
def fromUtf8Lossy : List UInt8 → List Char
  | [] => []
  | a :: s =>
    if a < 0x80 then asciiChar a :: fromUtf8Lossy s
    else match lead a, s with
    | none, s => replacement :: fromUtf8Lossy s
    | some _, [] => [replacement]
    | some (n, low, high), b :: s' =>
      if b < low || high < b then replacement :: fromUtf8Lossy (b :: s')
      else match n, s' with
      | 1, s' => assemble 32 a [b] :: fromUtf8Lossy s'
      | _, [] => [replacement]
      | n, c :: s'' =>
        if !isTail c then replacement :: fromUtf8Lossy (c :: s'')
        else match n, s'' with
        | 2, s'' => assemble 16 a [b, c] :: fromUtf8Lossy s''
        | _, [] => [replacement]
        | _, d :: s''' =>
          if !isTail d then replacement :: fromUtf8Lossy (d :: s''')
          else assemble 8 a [b, c, d] :: fromUtf8Lossy s'''

theorem fromUtf8Lossy_cons {a : UInt8} (ha : a < 0x80) (s : List UInt8) :
    fromUtf8Lossy (a :: s) = asciiChar a :: fromUtf8Lossy s := by
  rw [fromUtf8Lossy.eq_def]
  simp [ha]

theorem fromUtf8Lossy_append {u : List UInt8} (hu : ∀ a ∈ u, a < 0x80) (s : List UInt8) :
    fromUtf8Lossy (u ++ s) = u.map asciiChar ++ fromUtf8Lossy s := by
  induction u with
  | nil => rfl
  | cons a u ih =>
    rw [cons_append, fromUtf8Lossy_cons (hu a (.head _)),
      ih fun b hb => hu b (.tail _ hb), map_cons, cons_append]

theorem fromUtf8Lossy_eq_nil {s : List UInt8} : fromUtf8Lossy s = [] ↔ s = [] := by
  refine ⟨fun h => ?_, fun h => by rw [h]; rfl⟩
  cases s with
  | nil => rfl
  | cons a s =>
    rw [fromUtf8Lossy.eq_def] at h
    dsimp only at h
    repeat' split at h
    all_goals cases h

/-! ## Searching

The first place where a list continues with a pattern, what a search over the windows of a
slice finds. A stream is searched again whenever more of it has arrived, so the lemmas say
what a longer list changes. -/

open Option

variable {α : Type*} [DecidableEq α]

/-- `s.windows(n).position(|w| w == pat)`, for a pattern of length `n > 0`. -/
def position (pat : List α) : List α → Option Nat
  | [] => none
  | a :: s => if pat.isPrefixOf (a :: s) then some 0 else (position pat s).map (· + 1)

variable {pat s t : List α} {p : Nat}

theorem exists_of_position (h : position pat s = some p) :
    ∃ u v, s = u ++ pat ++ v ∧ u.length = p := by
  induction s generalizing p with
  | nil => cases h
  | cons a s ih =>
    rw [position] at h
    split_ifs at h with hpat
    · obtain ⟨v, hv⟩ := isPrefixOf_iff_prefix.1 hpat
      exact ⟨[], v, hv.symm, some.inj h⟩
    · obtain ⟨q, hq, rfl⟩ := map_eq_some_iff.1 h
      obtain ⟨u, v, rfl, hu⟩ := ih hq
      exact ⟨a :: u, v, rfl, congrArg (· + 1) hu⟩

theorem position_le (h : position pat s = some p) : p + pat.length ≤ s.length := by
  obtain ⟨u, v, rfl, rfl⟩ := exists_of_position h
  simp only [length_append]
  omega

theorem take_append_drop_position (h : position pat s = some p) :
    s.take p ++ pat ++ s.drop (p + pat.length) = s := by
  obtain ⟨u, v, rfl, rfl⟩ := exists_of_position h
  rw [append_assoc u, take_left, ← append_assoc, ← length_append, drop_left]

theorem position_append (h : position pat s = some p) (t : List α) :
    position pat (s ++ t) = some p := by
  induction s generalizing p with
  | nil => cases h
  | cons a s ih =>
    rw [position] at h
    rw [cons_append, position]
    split_ifs at h with hpat
    · have hlong : pat.isPrefixOf (a :: (s ++ t)) := isPrefixOf_iff_prefix.2
        (( isPrefixOf_iff_prefix.1 hpat).trans (prefix_append (a :: s) t))
      rw [if_pos hlong, h]
    obtain ⟨q, hq, rfl⟩ := map_eq_some_iff.1 h
    have hlen : pat.length ≤ (a :: s).length := by
      have := position_le hq
      rw [length_cons]
      omega
    have hshort : ¬ pat.isPrefixOf (a :: (s ++ t)) := fun hp => by
      refine hpat <| isPrefixOf_iff_prefix.2 ?_
      exact prefix_of_prefix_length_le ( isPrefixOf_iff_prefix.1 hp)
        ( prefix_append (a :: s) t) hlen
    rw [if_neg hshort, ih hq]
    rfl

theorem exists_position_le (hpat : pat ≠ []) (u v : List α) :
    ∃ q ≤ u.length, position pat (u ++ pat ++ v) = some q := by
  induction u with
  | nil =>
    obtain ⟨b, pat', rfl⟩ := exists_cons_of_ne_nil hpat
    refine ⟨0, Nat.le_refl 0, ?_⟩
    rw [nil_append, cons_append, position, if_pos]
    exact isPrefixOf_iff_prefix.2 <| prefix_append (b :: pat') v
  | cons a u ih =>
    obtain ⟨q, hq, h⟩ := ih
    rw [cons_append, cons_append, position]
    split_ifs
    · exact ⟨0, Nat.zero_le _, rfl⟩
    · exact ⟨q + 1, Nat.succ_le_succ hq, by rw [h]; rfl⟩

theorem lt_of_position_append (hpat : pat ≠ []) (hs : position pat s = none)
    (h : position pat (s ++ t) = some p) : s.length < p + pat.length := by
  by_contra hle
  obtain ⟨u, v, huv, rfl⟩ := exists_of_position h
  -- The occurrence lies in `s`, so a search of `s` would have found one.
  have hprefix : u ++ pat <+: s := prefix_of_prefix_length_le
    (huv ▸ prefix_append (u ++ pat) v) ( prefix_append s t)
    (by rw [length_append]; omega)
  obtain ⟨w, rfl⟩ := hprefix
  obtain ⟨q, -, hq⟩ := exists_position_le hpat u w
  rw [hs] at hq
  cases hq

theorem position_eq_none_iff (hpat : pat ≠ []) : position pat s = none ↔ ¬ pat <:+: s := by
  constructor
  · rintro h ⟨u, v, rfl⟩
    obtain ⟨q, -, hq⟩ := exists_position_le hpat u v
    rw [h] at hq
    cases hq
  intro h
  cases hp : position pat s with
  | none => rfl
  | some p =>
    obtain ⟨u, v, rfl, -⟩ := exists_of_position hp
    exact absurd ⟨u, v, rfl⟩ h

theorem position_eq_none_of_append (h : position pat (s ++ t) = none) : position pat s = none := by
  cases hs : position pat s with
  | none => rfl
  | some p => rw [position_append hs] at h; cases h

/-! ## Two different elements -/

section Pair

variable {a b : α}

theorem isPrefixOf_pair {c : α} : List.isPrefixOf [a, b] (c :: s) ↔ c = a ∧ s.head? = some b := by
  cases s with
  | nil => simp
  | cons d s =>
    simp only [isPrefixOf, Bool.and_true, Bool.and_eq_true, beq_iff_eq, head?_cons,
      some.injEq]
    exact and_congr eq_comm eq_comm

theorem position_pair (hab : a ≠ b) (hs : position [a, b] s = none) (t : List α) :
    position [a, b] (s ++ a :: b :: t) = some s.length := by
  induction s with
  | nil => rw [nil_append, position, if_pos (isPrefixOf_pair.2 ⟨rfl, rfl⟩)]; rfl
  | cons c s ih =>
    rw [position] at hs
    split_ifs at hs with hc
    have hnot : ¬ isPrefixOf [a, b] (c :: (s ++ a :: b :: t)) := by
      rw [isPrefixOf_pair] at hc ⊢
      rintro ⟨rfl, h⟩
      cases s with
      | nil => exact hab (some.inj h)
      | cons d s => exact hc ⟨rfl, h⟩
    rw [cons_append, position, if_neg hnot, ih (map_eq_none_iff.1 hs)]
    rfl

theorem position_append_of_notMem {u : List α} (hu : a ∉ u) :
    position (a :: pat) (u ++ s) = (position (a :: pat) s).map (· + u.length) := by
  induction u with
  | nil => exact map_id'.symm
  | cons c u ih =>
    rw [mem_cons, not_or] at hu
    have hnot : ¬ isPrefixOf (a :: pat) (c :: (u ++ s)) := by simp [hu.1]
    rw [cons_append, position, if_neg hnot, ih hu.2, Option.map_map]
    rfl

theorem position_pair_concat (hab : a ≠ b) (hs : position [a, b] s = none) :
    position [a, b] (s ++ [a]) = none := by
  cases h : position [a, b] (s ++ [a]) with
  | none => rfl
  | some p =>
    have hp := position_append h [b]
    rw [append_assoc, singleton_append, position_pair hab hs] at hp
    have := position_le h
    simp only [length_append, length_cons] at this
    have := some.inj hp
    omega

theorem eq_concat_of_position_pair (hs : position [a, b] s = none)
    (h : position [a, b] (s ++ t) = some p) (hp : p < s.length) :
    ∃ u v, s = u ++ [a] ∧ t = b :: v ∧ u.length = p := by
  have hlt := lt_of_position_append (cons_ne_nil a [b]) hs h
  obtain ⟨u, v, huv, rfl⟩ := exists_of_position h
  have hlen : (u ++ [a]).length = s.length := by
    simp only [length_append, length_cons, length_nil] at hlt ⊢
    omega
  obtain ⟨rfl, ht⟩ := append_inj (show _ = _ ++ (b :: v) by simpa using huv) hlen.symm
  exact ⟨u, v, rfl, ht, rfl⟩

/-- The pieces between the places where `b` follows `a`. -/
def splitPair (a b : α) : List α → List (List α)
  | c :: d :: s =>
    if c = a ∧ d = b then [] :: splitPair a b s else (splitPair a b (d :: s)).modifyHead (c :: ·)
  | s => [s]

theorem splitPair_append {u : List α} (hu : a ∉ u) (s : List α) :
    splitPair a b (u ++ a :: b :: s) = u :: splitPair a b s := by
  induction u with
  | nil => rw [nil_append, splitPair, if_pos ⟨rfl, rfl⟩]
  | cons c u ih =>
    rw [mem_cons, not_or] at hu
    obtain ⟨d, v, hv⟩ : ∃ d v, u ++ a :: b :: s = d :: v := by cases u <;> exact ⟨_, _, rfl⟩
    rw [cons_append, hv, splitPair, if_neg fun h => hu.1 h.1.symm, ← hv, ih hu.2]
    rfl

end Pair

end

section

open List Nat

/-- What comes after the last segment. -/
inductive Tail
  /-- Nothing yet: a read waits. -/
  | quiet
  /-- The end of the stream. -/
  | closed
  /-- An error. -/
  | broken

/-- The segments that arrive on a connection, and what comes after them. -/
structure Source (α : Type*) where
  segments : List (List α)
  tail : Tail

/-- What one read gives. -/
inductive ReadResult (α : Type*)
  | data (s : List α) (rest : Source α)
  | eof
  | error
  | pending

namespace Source

variable {α : Type*} {c c' : Source α} {limit n : Nat} {s : List α}

/-- What a source delivers. -/
def bytes (c : Source α) : List α := c.segments.flatten

/-- A read when no segment is there. -/
def atTail : Tail → ReadResult α
  | .quiet => .pending
  | .closed => .eof
  | .broken => .error

/-- A read of at most `limit` from the first segment that is not empty. -/
def readFrom (limit : Nat) (tail : Tail) : List (List α) → ReadResult α
  | [] => atTail tail
  | [] :: segments => readFrom limit tail segments
  | (a :: s) :: segments => .data ((a :: s).take limit) ⟨(a :: s).drop limit :: segments, tail⟩

/-- A read of at most `limit` elements. -/
def read (limit : Nat) (c : Source α) : ReadResult α := readFrom limit c.tail c.segments

theorem read_spec (hlimit : 0 < limit) (c : Source α) :
    (∃ s c', c.read limit = .data s c' ∧ s ≠ [] ∧ s.length ≤ limit ∧ c.bytes = s ++ c'.bytes ∧
      c'.tail = c.tail) ∨ (c.read limit = atTail c.tail ∧ c.bytes = []) := by
  obtain ⟨segments, tail⟩ := c
  induction segments with
  | nil => exact .inr ⟨rfl, rfl⟩
  | cons segment segments ih =>
    cases segment with
    | nil => exact ih
    | cons a s =>
      refine .inl ⟨_, _, rfl, ?_, length_take_le _ _, ?_, rfl⟩
      · rw [Ne, take_eq_nil_iff]
        rintro (h | h)
        · omega
        · cases h
      · simp only [bytes, flatten_cons]
        rw [← append_assoc, take_append_drop]

theorem length_of_read (hlimit : 0 < limit) (h : c.read limit = .data s c') :
    c'.bytes.length < c.bytes.length := by
  rcases read_spec hlimit c with ⟨t, d, hread, hne, -, hbytes, -⟩ | ⟨hread, -⟩
  · rw [h] at hread
    cases hread
    have := length_pos_of_ne_nil hne
    rw [hbytes, length_append]
    omega
  · rw [h] at hread
    cases ht : c.tail <;> rw [ht] at hread <;> cases hread

/-! ## Reads of one size -/

/-- What reads of at most `limit + 1` return, one after the other, until no more data comes. -/
def reads (limit : Nat) (c : Source α) : List (List α) :=
  match _h : c.read (limit + 1) with
  | .data s rest => s :: reads limit rest
  | _ => []
termination_by c.bytes.length
decreasing_by exact length_of_read (succ_pos limit) _h

theorem reads_of_data (h : c.read (limit + 1) = .data s c') :
    c.reads limit = s :: c'.reads limit := by
  rw [reads]
  split
  · next s' d h' =>
    rw [h] at h'
    cases h'
    rfl
  · next hne => exact absurd h (hne _ _)

theorem reads_of_atTail (h : c.read (limit + 1) = atTail c.tail) : c.reads limit = [] := by
  rw [reads]
  split
  · next s' d h' =>
    rw [h] at h'
    cases ht : c.tail <;> rw [ht] at h' <;> cases h'
  · rfl

theorem flatten_reads (limit : Nat) (c : Source α) : (c.reads limit).flatten = c.bytes := by
  induction hn : c.bytes.length using Nat.strong_induction_on generalizing c with
  | _ n ih =>
    rcases read_spec (succ_pos limit) c with ⟨s, d, hread, -, -, hbytes, -⟩ | ⟨hread, hbytes⟩
    · have hlt := length_of_read (succ_pos limit) hread
      rw [reads_of_data hread, flatten_cons, ih _ (hn ▸ hlt) d rfl, hbytes]
    · rw [reads_of_atTail hread, hbytes, flatten_nil]

/-! ## Filling a buffer -/

/-- `read_exact`: reads until `n` bytes are there. -/
def readExact (n : Nat) (c : Source α) : ReadResult α :=
  match n with
  | 0 => .data [] c
  | n + 1 =>
    match _h : c.read (n + 1) with
    | .data s rest =>
      match readExact (n + 1 - s.length) rest with
      | .data t rest => .data (s ++ t) rest
      | out => out
    | out => out
termination_by c.bytes.length
decreasing_by exact length_of_read (succ_pos n) _h

theorem readExact_eq : c.readExact (n + 1) = match c.read (n + 1) with
    | .data s rest =>
      match rest.readExact (n + 1 - s.length) with
      | .data t rest => .data (s ++ t) rest
      | out => out
    | out => out := by
  rw [readExact]
  split <;> simp [*]

theorem readExact_of_le (h : n ≤ c.bytes.length) :
    ∃ c', c.readExact n = .data (c.bytes.take n) c' ∧ c'.bytes = c.bytes.drop n ∧
      c'.tail = c.tail := by
  induction hm : c.bytes.length using Nat.strong_induction_on generalizing c n with
  | _ m ih =>
    rcases n with _ | n
    · exact ⟨c, by rw [readExact, take_zero], rfl, rfl⟩
    rcases read_spec (succ_pos n) c with ⟨s, d, hread, hne, hlen, hbytes, htail⟩ | ⟨-, hnil⟩
    · have hlt := length_of_read (succ_pos n) hread
      have hd : n + 1 - s.length ≤ d.bytes.length := by
        rw [hbytes, length_append] at h
        omega
      obtain ⟨c', hc', hrest, htail'⟩ := ih _ (hm ▸ hlt) hd rfl
      refine ⟨c', ?_, ?_, htail'.trans htail⟩
      · rw [readExact_eq, hread]
        dsimp only
        rw [hc', hbytes, take_append, take_of_length_le hlen]
      · rw [hrest, hbytes, drop_append, drop_eq_nil_of_le hlen, nil_append]
    · rw [hnil] at h
      exact absurd h (not_succ_le_zero n)

theorem readExact_of_lt (h : c.bytes.length < n) : c.readExact n = atTail c.tail := by
  induction hm : c.bytes.length using Nat.strong_induction_on generalizing c n with
  | _ m ih =>
    rcases n with _ | n
    · cases h
    rcases read_spec (succ_pos n) c with ⟨s, d, hread, hne, hlen, hbytes, htail⟩ | ⟨hread, -⟩
    · have hlt := length_of_read (succ_pos n) hread
      have hd : d.bytes.length < n + 1 - s.length := by
        rw [hbytes, length_append] at h
        omega
      rw [readExact_eq, hread]
      dsimp only
      rw [ih _ (hm ▸ hlt) hd rfl, htail]
      cases c.tail <;> rfl
    · rw [readExact_eq, hread]
      cases c.tail <;> rfl

end Source

/-! ## Decoders that fill buffers

A decoder asks for a number of elements, looks at them, and goes on, gives a value or fails: the
way a program reads with `read_exact`. On a connection and on a list it gives the same, so that
what is decoded does not depend on how a stream is cut. -/

/-- A program that reads. -/
inductive Decoder (α ε β : Type*)
  | done (b : β)
  | fail (e : ε)
  | take (n : Nat) (next : List α → Decoder α ε β)

namespace Decoder

variable {α ε β : Type*}

/-- What comes of a list: a value and what was not read, a failure, or too little to tell. -/
inductive Parsed (α ε β : Type*)
  | ok (b : β) (rest : List α)
  | error (e : ε)
  | short

/-- A program on a list. -/
def parse : Decoder α ε β → List α → Parsed α ε β
  | .done b, s => .ok b s
  | .fail e, _ => .error e
  | .take n next, s => if n ≤ s.length then (next (s.take n)).parse (s.drop n) else .short

/-- What comes of a connection; it is cut off where no more arrives than was read. -/
inductive Outcome (α ε β : Type*)
  | ok (b : β) (rest : Source α)
  | error (e : ε)
  | cut (tail : Tail)

/-- A program on a connection. -/
def run : Decoder α ε β → Source α → Outcome α ε β
  | .done b, c => .ok b c
  | .fail e, _ => .error e
  | .take n next, c =>
    match c.readExact n with
    | .data s rest => (next s).run rest
    | .eof => .cut .closed
    | .error => .cut .broken
    | .pending => .cut .quiet

/-- The connection gives what its bytes give. -/
def Outcome.Agrees (tail : Tail) : Outcome α ε β → Parsed α ε β → Prop
  | .ok b c, .ok b' rest => b = b' ∧ c.bytes = rest ∧ c.tail = tail
  | .error e, .error e' => e = e'
  | .cut t, .short => t = tail
  | _, _ => False

theorem run_spec (d : Decoder α ε β) (c : Source α) : (d.run c).Agrees c.tail (d.parse c.bytes) := by
  induction d generalizing c with
  | done b => exact ⟨rfl, rfl, rfl⟩
  | fail e => exact rfl
  | take n next ih =>
    rw [run, parse]
    split_ifs with hn
    · obtain ⟨c', hread, hbytes, htail⟩ := Source.readExact_of_le hn
      rw [hread, ← hbytes, ← htail]
      exact ih _ c'
    · rw [Source.readExact_of_lt (Nat.lt_of_not_le hn)]
      cases c.tail <;> rfl

variable {d : Decoder α ε β} {c : Source α}

theorem exists_run_of_parse {b : β} {rest : List α} (h : d.parse c.bytes = .ok b rest) :
    ∃ c', d.run c = .ok b c' ∧ c'.bytes = rest ∧ c'.tail = c.tail := by
  have hspec := d.run_spec c
  cases hrun : d.run c <;> rw [h, hrun] at hspec
  · obtain ⟨rfl, hbytes, htail⟩ := hspec
    exact ⟨_, rfl, hbytes, htail⟩
  · cases hspec
  · cases hspec

theorem run_of_parse_error {e : ε} (h : d.parse c.bytes = .error e) : d.run c = .error e := by
  have hspec := d.run_spec c
  cases hrun : d.run c <;> rw [h, hrun] at hspec
  · cases hspec
  · exact congrArg _ hspec
  · cases hspec

theorem run_of_parse_short (h : d.parse c.bytes = .short) : d.run c = .cut c.tail := by
  have hspec := d.run_spec c
  cases hrun : d.run c <;> rw [h, hrun] at hspec
  · cases hspec
  · cases hspec
  · exact congrArg _ hspec

theorem parse_take_append {next : List α → Decoder α ε β} {n : Nat} {s : List α} (h : s.length = n)
    (t : List α) : (Decoder.take n next).parse (s ++ t) = (next s).parse t := by
  rw [parse, if_pos (by rw [length_append]; omega), ← h, take_left, drop_left]

end Decoder

/-! ## Numbers -/

/-- The low `n` bytes of a number, the highest first. -/
def bigEndian : Nat → Nat → List UInt8
  | 0, _ => []
  | n + 1, v => bigEndian n (v / 256) ++ [UInt8.ofNat v]

/-- The number that bytes are, the highest first. -/
def ofBigEndian (s : List UInt8) : Nat := s.foldl (fun v b => 256 * v + b.toNat) 0

@[simp] theorem length_bigEndian (n v : Nat) : (bigEndian n v).length = n := by
  induction n generalizing v with
  | zero => rfl
  | succ n ih => rw [bigEndian, length_append, ih, length_singleton]

theorem ofBigEndian_bigEndian {n v : Nat} (h : v < 256 ^ n) : ofBigEndian (bigEndian n v) = v := by
  induction n generalizing v with
  | zero =>
    rw [Nat.pow_zero, Nat.lt_one_iff] at h
    rw [h]
    rfl
  | succ n ih =>
    have hdiv : v / 256 < 256 ^ n := by
      rw [Nat.div_lt_iff_lt_mul (by omega), ← Nat.pow_succ]
      exact h
    have hbyte : (UInt8.ofNat v).toNat = v % 256 := UInt8.toNat_ofNat'
    have hfold : ofBigEndian (bigEndian n (v / 256) ++ [UInt8.ofNat v]) =
        256 * ofBigEndian (bigEndian n (v / 256)) + (UInt8.ofNat v).toNat := by
      rw [ofBigEndian, foldl_append]
      rfl
    rw [bigEndian, hfold, ih hdiv, hbyte]
    exact Nat.div_add_mod v 256

end

end ZeroProxy.Bytes
