import Mathlib.Data.Nat.Digits.Defs
import ZeroProxy.Codec.Chunked

/-!
# Feeding the chunked decoder

What a server writes in chunked coding (RFC 9112, section 7.1), where the size of a chunk may have
leading zeros, digits of either case and any extension after it, and how the decoder reads it.

Bytes reach the decoder in pieces, and its body may be drained after any of them. All a decoder
keeps from one push to the next is what it has not read yet, so it goes on from there as if the
bytes had come at once (`stepUntilBlocked_eq_ok`), with one exception: while a line is not there
in full, its carriage return counts against the cap on lines.
-/

namespace ZeroProxy.Codec

open Bytes ChunkedDecoder Http List Nat Text

/-! ## Size lines -/

/-- A hexadecimal digit, in upper or lower case. -/
def hexDigit (upper : Bool) (d : Nat) : UInt8 :=
  if d < 10 then .ofNat (0x30 + d) else if upper then .ofNat (0x37 + d) else .ofNat (0x57 + d)

/-- A number with leading zeros; `upper` chooses the case of every digit. -/
def sizeDigits (zeros : Nat) (upper : Nat → Bool) (n : Nat) : Bytes :=
  List.replicate zeros 0x30 ++ (Nat.digits 16 n).reverse.mapIdx fun i d => hexDigit (upper i) d

/-- A byte of ASCII that the code reads as a digit, and as nothing else. -/
structure IsDigit (b : UInt8) : Prop where
  ascii : b < 0x80
  ne_cr : b ≠ cr
  value : (digitValue (asciiChar b)).isSome
  ne_semicolon : asciiChar b ≠ ';'
  not_white : isRustWhitespace (asciiChar b) = false

theorem hexDigit_spec (upper : Bool) {d : Nat} (hd : d < 16) :
    IsDigit (hexDigit upper d) ∧ digitValue (asciiChar (hexDigit upper d)) = some d := by
  have hall : ∀ upper, ∀ d : Fin 16, (hexDigit upper d < 0x80 ∧ hexDigit upper d ≠ cr ∧
      asciiChar (hexDigit upper d) ≠ ';' ∧
      isRustWhitespace (asciiChar (hexDigit upper d)) = false) ∧
      digitValue (asciiChar (hexDigit upper d)) = some d.1 := by decide
  obtain ⟨⟨h1, hcr, h2, h3⟩, h4⟩ := hall upper ⟨d, hd⟩
  exact ⟨⟨h1, hcr, by rw [h4]; rfl, h2, h3⟩, h4⟩

theorem isDigit_of_mem_sizeDigits {zeros n : Nat} {upper : Nat → Bool} {b : UInt8}
    (h : b ∈ sizeDigits zeros upper n) : IsDigit b := by
  rcases mem_append.1 h with h | h
  · rw [eq_of_mem_replicate h]
    exact (hexDigit_spec true (by decide : 0 < 16)).1
  · obtain ⟨i, hi, rfl⟩ := mem_mapIdx.1 h
    exact (hexDigit_spec _ (digits_lt_base (by decide) (mem_reverse.1 (getElem_mem _)))).1

theorem map_digitValue_sizeDigits (zeros n : Nat) (upper : Nat → Bool) :
    (sizeDigits zeros upper n).map (fun b => (digitValue (asciiChar b)).getD 0) =
      List.replicate zeros 0 ++ (Nat.digits 16 n).reverse := by
  rw [sizeDigits, map_append, map_replicate]
  congr 1
  refine ext_getElem (by simp) fun i h₁ h₂ => ?_
  have hlt : (Nat.digits 16 n).reverse[i] < 16 :=
    digits_lt_base (by decide) (mem_reverse.1 (getElem_mem _))
  rw [getElem_map, getElem_mapIdx, (hexDigit_spec _ hlt).2, Option.getD_some]

theorem hexNumber_sizeDigits (zeros n : Nat) (upper : Nat → Bool) :
    hexNumber ((sizeDigits zeros upper n).map asciiChar) = n := by
  have hzeros : (replicate zeros 0).foldl (fun n d => 16 * n + d) 0 = 0 := by
    induction zeros with
    | zero => rfl
    | succ zeros ih => rw [replicate_succ, foldl_cons, ih]
  have hfold (l : List Nat) : l.foldr (fun d n => 16 * n + d) 0 = Nat.ofDigits 16 l := by
    induction l with
    | nil => rfl
    | cons d l ih => rw [foldr_cons, ih, ofDigits_cons, add_comm]
  calc hexNumber ((sizeDigits zeros upper n).map asciiChar)
      = ((sizeDigits zeros upper n).map (fun b => (digitValue (asciiChar b)).getD 0)).foldl
          (fun n d => 16 * n + d) 0 := by rw [hexNumber, foldl_map, foldl_map]
    _ = (Nat.digits 16 n).foldr (fun d n => 16 * n + d) 0 := by
        rw [map_digitValue_sizeDigits, foldl_append, hzeros, foldl_reverse]
    _ = n := by rw [hfold, ofDigits_digits]

/-- A chunk extension, as a sender writes it. -/
structure Extension where
  bytes : Bytes
  shape : bytes = [] ∨ ∃ blanks rest, bytes = blanks ++ 0x3b :: rest ∧ ∀ b ∈ blanks, b = 0x20 ∨ b = 0x09
  noBreak : ¬ crlf <:+: bytes

theorem trim_takeWhile_append {digits : Bytes} (hdigits : ∀ b ∈ digits, IsDigit b)
    (ext : Extension) :
    rustTrim ((fromUtf8Lossy (digits ++ ext.bytes)).takeWhile (· != ';')) =
      digits.map asciiChar := by
  have hsemi : ∀ c ∈ digits.map asciiChar, (c != ';') := fun c hc => by
    obtain ⟨b, hb, rfl⟩ := mem_map.1 hc
    exact bne_iff_ne.2 (hdigits b hb).ne_semicolon
  have hwhite : ∀ c ∈ digits.map asciiChar, isRustWhitespace c = false := fun c hc => by
    obtain ⟨b, hb, rfl⟩ := mem_map.1 hc
    exact (hdigits b hb).not_white
  have htrim (blanks : Text) (hblanks : ∀ c ∈ blanks, isRustWhitespace c) :
      rustTrim (digits.map asciiChar ++ blanks) = digits.map asciiChar :=
    stripBoth_append (a := []) (fun c hc => absurd hc not_mem_nil) hwhite hblanks
  rw [fromUtf8Lossy_append fun b hb => (hdigits b hb).ascii]
  rcases ext.shape with hext | ⟨blanks, rest, hext, hblanks⟩
  · rw [hext, takeWhile_append_of_pos hsemi]
    exact htrim [] nofun
  -- White space, and a semicolon that ends the number.
  have hb (b : UInt8) (h : b ∈ blanks) : b < 0x80 ∧ asciiChar b ≠ ';' ∧
      isRustWhitespace (asciiChar b) := by
    rcases hblanks b h with rfl | rfl <;> decide
  have hlossy : fromUtf8Lossy (blanks ++ 0x3b :: rest) =
      blanks.map asciiChar ++ ';' :: fromUtf8Lossy rest := by
    rw [fromUtf8Lossy_append fun b h => (hb b h).1]
    rfl
  have hsemi' : ∀ c ∈ blanks.map asciiChar, (c != ';') := fun c hc => by
    obtain ⟨b, h, rfl⟩ := mem_map.1 hc
    exact bne_iff_ne.2 (hb b h).2.1
  rw [hext, hlossy, takeWhile_append_of_pos hsemi, takeWhile_append_of_pos hsemi',
    takeWhile_cons_of_neg (by decide), append_nil]
  refine htrim _ fun c hc => ?_
  obtain ⟨b, h, rfl⟩ := mem_map.1 hc
  exact (hb b h).2.2

theorem chunkSize_append {digits : Bytes} (hne : digits ≠ []) (hdigits : ∀ b ∈ digits, IsDigit b)
    (hnum : hexNumber (digits.map asciiChar) < UInt64.size) (ext : Extension) :
    chunkSize (digits ++ ext.bytes) = some (hexNumber (digits.map asciiChar)) := by
  have hempty : ¬ (digits.map asciiChar).isEmpty := by
    rwa [List.isEmpty_iff, map_eq_nil_iff]
  have hall : (digits.map asciiChar).all (fun c => (digitValue c).isSome) := by
    rw [all_map, all_eq_true]
    exact fun b hb => (hdigits b hb).value
  rw [chunkSize, parseChunkSizeLine, trim_takeWhile_append hdigits, if_neg hempty, hall, if_neg (by decide), if_neg (by omega)]

theorem not_infix_digits_append {digits : Bytes} (hdigits : ∀ b ∈ digits, IsDigit b)
    (ext : Extension) : ¬ crlf <:+: digits ++ ext.bytes := by
  rw [← position_eq_none_iff crlf_ne_nil]
  exact (position_append_of_notMem fun h => (hdigits cr h).ne_cr rfl).trans
    (Option.map_eq_none_iff.2 ((position_eq_none_iff crlf_ne_nil).2 ext.noBreak))

/-! ## Messages -/

/-- A chunk, as a sender writes it. -/
structure Chunk where
  data : Bytes
  data_ne_nil : data ≠ []
  zeros : Nat
  upper : Nat → Bool
  ext : Extension

def Chunk.sizeLine (c : Chunk) : Bytes := sizeDigits c.zeros c.upper c.data.length ++ c.ext.bytes

/-- A chunk on the wire. -/
def Chunk.encode (c : Chunk) : Bytes := c.sizeLine ++ crlf ++ c.data ++ crlf

/-- A trailer field. -/
structure Trailer where
  bytes : Bytes
  bytes_ne_nil : bytes ≠ []
  noBreak : ¬ crlf <:+: bytes

/-- A message: its chunks, the zeros and the extension of the last chunk, and the trailers. -/
structure Message where
  chunks : List Chunk
  zeros : Nat
  ext : Extension
  trailers : List Trailer

/-- Trailers and the empty line. -/
def encodeTrailers (trailers : List Trailer) : Bytes := trailers.flatMap (·.bytes ++ crlf) ++ crlf

namespace Message

variable (m : Message)

/-- The size line of the last chunk. -/
def lastLine : Bytes := sizeDigits (m.zeros + 1) (fun _ => false) 0 ++ m.ext.bytes

/-- The lines of a message. -/
def lines : List Bytes :=
  m.chunks.map Chunk.sizeLine ++ m.lastLine :: m.trailers.map Trailer.bytes

/-- The body of a message. -/
def body : Bytes := m.chunks.flatMap Chunk.data

/-- A message in chunked coding. -/
def encode : Bytes :=
  m.chunks.flatMap Chunk.encode ++ (m.lastLine ++ crlf ++ encodeTrailers m.trailers)

end Message

open Message

variable {lim : Limits}

theorem readTrailers_encode {trailers : List Trailer}
    (hlen : ∀ t ∈ trailers, lim.allowsLine t.bytes.length) (rest : Bytes) :
    readTrailers lim (encodeTrailers trailers ++ rest) = .complete rest := by
  induction trailers with
  | nil =>
    have hzero : lim.allowsLine ([] : Bytes).length := by
      obtain ⟨_ | m, body⟩ := lim
      · rfl
      · exact decide_eq_true (zero_le m)
    have hnext := Limits.nextLine_line (fun h => by cases eq_nil_of_infix_nil h) hzero rest
    rw [readTrailers_eq, show encodeTrailers [] ++ rest = [] ++ crlf ++ rest from rfl, hnext]
  | cons t trailers ih =>
    have hnext := Limits.nextLine_line t.noBreak (hlen t (.head _))
      (encodeTrailers trailers ++ rest)
    have hsplit : encodeTrailers (t :: trailers) ++ rest =
        t.bytes ++ crlf ++ (encodeTrailers trailers ++ rest) := by
      simp [encodeTrailers]
    obtain ⟨a, l, hl⟩ := exists_cons_of_ne_nil t.bytes_ne_nil
    rw [readTrailers_eq, hsplit, hnext, hl]
    exact ih fun t ht => hlen t (.tail _ ht)

theorem read_chunk {received : Nat} (c : Chunk) (hline : lim.allowsLine c.sizeLine.length)
    (hsize : c.data.length < UInt64.size) (hchunk : lim.allowsChunk received c.data.length)
    (rest : Bytes) :
    read lim received (c.encode ++ rest) =
      (read lim (received + c.data.length) rest).after c.data := by
  have hdigits : ∀ b ∈ sizeDigits c.zeros c.upper c.data.length, IsDigit b :=
    fun b hb => isDigit_of_mem_sizeDigits hb
  obtain ⟨k, hk⟩ := exists_eq_succ_of_ne_zero
    (fun h => c.data_ne_nil (eq_nil_of_length_eq_zero h))
  have hne : sizeDigits c.zeros c.upper c.data.length ≠ [] := by
    rw [sizeDigits, hk]
    simp
  have hnext := Limits.nextLine_line (not_infix_digits_append hdigits c.ext) hline
    (c.data ++ (crlf ++ rest))
  have hsplit : c.encode ++ rest = c.sizeLine ++ crlf ++ (c.data ++ (crlf ++ rest)) := by
    simp [Chunk.encode]
  have hnum := hexNumber_sizeDigits c.zeros c.data.length c.upper
  have hchunkSize := chunkSize_append hne hdigits (by rwa [hnum]) c.ext
  rw [hnum] at hchunkSize
  rw [read_eq, hsplit, Chunk.sizeLine, hnext]
  dsimp only
  rw [hchunkSize, hk]
  dsimp only [readChunk]
  rw [if_neg (by rw [← succ_eq_add_one, ← hk, hchunk]; decide), ← succ_eq_add_one, ← hk,
    drop_left, take_left]
  rfl

theorem read_encode (m : Message) {received : Nat} (hlines : ∀ l ∈ m.lines, lim.allowsLine l.length)
    (hsizes : ∀ c ∈ m.chunks, c.data.length < UInt64.size)
    (hbody : ∀ cap ∈ lim.body, received + m.body.length ≤ cap) (rest : Bytes) :
    read lim received (m.encode ++ rest) = ⟨m.body, .complete rest⟩ := by
  obtain ⟨chunks, zeros, ext, trailers⟩ := m
  induction chunks generalizing received with
  | nil =>
    have hdigits : ∀ b ∈ sizeDigits (zeros + 1) (fun _ => false) 0, IsDigit b :=
      fun b hb => isDigit_of_mem_sizeDigits hb
    have hnext := Limits.nextLine_line (not_infix_digits_append hdigits ext)
      (hlines _ (.head _)) (encodeTrailers trailers ++ rest)
    have hnum := hexNumber_sizeDigits (zeros + 1) 0 fun _ => false
    have hne : sizeDigits (zeros + 1) (fun _ => false) 0 ≠ [] := cons_ne_nil _ _
    have hsize := chunkSize_append hne hdigits (by rw [hnum]; decide) ext
    rw [hnum] at hsize
    have hsplit : encode ⟨[], zeros, ext, trailers⟩ ++ rest =
        sizeDigits (zeros + 1) (fun _ => false) 0 ++ ext.bytes ++ crlf ++
          (encodeTrailers trailers ++ rest) := by
      simp [encode, lastLine]
    rw [read_eq, hsplit, hnext]
    dsimp only
    rw [hsize]
    dsimp only [readChunk]
    rw [readTrailers_encode fun t ht => hlines _ (.tail _ (mem_map_of_mem ht))]
    rfl
  | cons c chunks ih =>
    have hlen : (body ⟨c :: chunks, zeros, ext, trailers⟩).length =
        c.data.length + (body ⟨chunks, zeros, ext, trailers⟩).length := by
      simp only [Message.body, flatMap_cons, length_append]
    have hchunk : lim.allowsChunk received c.data.length := by
      rw [Limits.allowsChunk, Option.all_eq_true]
      intro cap hcap
      have := hbody cap hcap
      exact decide_eq_true (by omega)
    have hsplit : encode ⟨c :: chunks, zeros, ext, trailers⟩ ++ rest =
        c.encode ++ (encode ⟨chunks, zeros, ext, trailers⟩ ++ rest) := by
      simp only [encode, flatMap_cons, append_assoc]
      rfl
    rw [hsplit, read_chunk c (hlines _ (.head _)) (hsizes c (.head _)) hchunk,
      ih (fun l hl => hlines l (.tail _ hl))
        (fun c hc => hsizes c (.tail _ hc))
        (fun cap hcap => by have := hbody cap hcap; omega)]
    rfl

/-! ## Decoding -/

/-- A decoder that is given a message and whatever follows is done: it has the data, and it has
    not touched what follows. -/
theorem decode_encode (m : Message) (bodyCap : Nat) (rest : Bytes)
    (hlines : ∀ l ∈ m.lines, l.length ≤ maxChunkLine)
    (hsizes : ∀ c ∈ m.chunks, c.data.length < UInt64.size) (hcap : m.body.length ≤ bodyCap) :
    let out := ((new bodyCap).push (m.encode ++ rest)).stepUntilBlocked
    out.2 = .ok .done ∧ out.1.body = m.body ∧ out.1.input = rest := by
  intro out
  have hread := @read_encode (decoderLimits bodyCap) m 0
    (fun l hl => decide_eq_true (hlines l hl)) hsizes
    (fun cap h => by obtain rfl : bodyCap = cap := Option.some.inj h; omega) rest
  have hagree := agrees_stepUntilBlocked
    (d := (new bodyCap).push (m.encode ++ rest)) rfl
  simp only [push, new, nil_append] at hagree
  rw [hread] at hagree
  exact ⟨hagree.2.1, hagree.1, hagree.2.2⟩

/-- One chunk with a leading zero and an extension, a trailer, and the head of what follows. -/
def sampleMessage : Message where
  chunks := [⟨utf8 "Wiki", by decide, 1, fun _ => true, ⟨utf8 " ;a",
    .inr ⟨[0x20], [0x61], by decide, forall_mem_singleton.2 (.inl rfl)⟩,
    (position_eq_none_iff crlf_ne_nil).1 rfl⟩⟩]
  zeros := 0
  ext := ⟨[], .inl rfl, (position_eq_none_iff crlf_ne_nil).1 rfl⟩
  trailers := [⟨utf8 "X: y", by decide, (position_eq_none_iff crlf_ne_nil).1 (by decide)⟩]

/-- A chunk with an extension, and a trailer. -/
theorem decode_encode_sampleMessage : let out := ((new 4).push
      (sampleMessage.encode ++ utf8 "HTTP")).stepUntilBlocked
    out.2 = .ok .done ∧ out.1.body = utf8 "Wiki" ∧ out.1.input = utf8 "HTTP" :=
  decode_encode sampleMessage 4 _ (by decide) (by decide) (by decide)

open Message

namespace ChunkedDecoder

variable {d d' : ChunkedDecoder}

/-! ## What was drained -/

def prepend (b : Bytes) (d : ChunkedDecoder) : ChunkedDecoder := { d with body := b ++ d.body }

theorem step_prepend (b : Bytes) (d : ChunkedDecoder) :
    (d.prepend b).step = (d.step.1.prepend b, d.step.2) := by
  obtain ⟨state, input, body, bodyCap, received⟩ := d
  rw [prepend]
  cases state with
  | waitingForSize =>
    rw [step_of_waitingForSize rfl, step_of_waitingForSize rfl]
    dsimp only
    split
    · rfl
    · rfl
    · split
      · rfl
      · split_ifs <;> rfl
  | readingBody remaining =>
    rw [step_of_readingBody rfl, step_of_readingBody rfl]
    split_ifs
    · rfl
    · rfl
    · rw [append_assoc]; rfl
    · rw [append_assoc]; rfl
  | waitingForCrlfAfterBody =>
    rw [step_of_waitingForCrlf rfl, step_of_waitingForCrlf rfl]
    dsimp only
    split
    · rfl
    · rfl
    · split_ifs <;> rfl
  | drainingTrailers =>
    rw [step_of_drainingTrailers rfl, step_of_drainingTrailers rfl]
    dsimp only
    split
    · rfl
    · rfl
    · split_ifs <;> rfl
  | done => rfl

theorem stepUntilBlocked_prepend (b : Bytes) (d : ChunkedDecoder) :
    (d.prepend b).stepUntilBlocked = (d.stepUntilBlocked.1.prepend b, d.stepUntilBlocked.2) := by
  induction d using progress_induct with
  | ih d ih =>
    have hstep := step_prepend b d
    rcases hd : d.step with ⟨d₁, out⟩
    rw [hd] at hstep
    by_cases hout : out = .ok .progress
    · subst hout
      rw [stepUntilBlocked_of_progress hstep, stepUntilBlocked_of_progress hd, ih d₁ hd]
    · rw [stepUntilBlocked_of_stop hstep hout, stepUntilBlocked_of_stop hd hout]

/-! ## More bytes -/

/-- A transition that was made is made as well when more bytes are there; only data that is not
    all there is then taken at once. -/
theorem stepUntilBlocked_push_of_progress (h : d.step = (d', .ok .progress)) (x : Bytes) :
    (d.push x).stepUntilBlocked = (d'.push x).stepUntilBlocked := by
  obtain ⟨state, input, body, bodyCap, received⟩ := d
  rw [push]
  cases state with
  | waitingForSize =>
    refine stepUntilBlocked_of_progress ?_
    rw [step_of_waitingForSize rfl] at h ⊢
    cases hl : nextLine input with
    | tooLong | incomplete => rw [hl] at h; cases h
    | line l r =>
      rw [nextLine_append hl]
      rw [hl] at h
      dsimp only at h ⊢
      split at h
      · cases h
      · split_ifs at h ⊢ <;> cases h <;> rfl
  | readingBody remaining =>
    rw [step_of_readingBody rfl] at h
    by_cases h0 : remaining = 0
    · rw [if_pos h0] at h
      cases h
      exact stepUntilBlocked_of_progress (by rw [step_of_readingBody rfl, if_pos h0]; rfl)
    rw [if_neg h0] at h
    by_cases hempty : input.length = 0
    · rw [if_pos hempty] at h
      cases h
    rw [if_neg hempty] at h
    have hnow := @step_of_readingBody ⟨.readingBody remaining, input ++ x, body, bodyCap, received⟩
      _ rfl
    rw [if_neg h0] at hnow
    rw [if_neg (by rw [length_append]; omega), length_append] at hnow
    by_cases hleft : remaining - input.length = 0
    · -- The data is all there.
      rw [if_pos hleft] at h
      cases h
      rw [if_pos (by omega), take_append_of_le_length (by omega),
        drop_append_of_le_length (by omega)] at hnow
      exact stepUntilBlocked_of_progress hnow
    -- Some is missing, and may come with the new bytes.
    have htake : input.take remaining = input := take_of_length_le (by omega)
    have hdrop : input.drop remaining = [] := drop_eq_nil_of_le (by omega)
    rw [if_neg hleft, htake, hdrop] at h
    cases h
    rw [take_append, drop_append, htake, hdrop, nil_append, ← append_assoc, ← Nat.sub_sub] at hnow
    rw [stepUntilBlocked_of_progress hnow, push]
    rw [nil_append]
    by_cases hx : x.length = 0
    · obtain rfl := eq_nil_of_length_eq_zero hx
      rw [take_nil, drop_nil, append_nil, if_neg (by simpa using hleft), length_nil, Nat.sub_zero]
    · have hlater := @step_of_readingBody
        ⟨.readingBody (remaining - input.length), x, body ++ input, bodyCap, received⟩ _ rfl
      rw [if_neg hleft] at hlater
      rw [if_neg hx] at hlater
      rw [stepUntilBlocked_of_progress hlater]
  | waitingForCrlfAfterBody =>
    refine stepUntilBlocked_of_progress ?_
    rw [step_of_waitingForCrlf rfl] at h ⊢
    rcases input with _ | ⟨a, _ | ⟨b, rest⟩⟩
    · cases h
    · cases h
    · dsimp only [cons_append] at h ⊢
      split_ifs at h ⊢
      · cases h
        rfl
      · cases h
  | drainingTrailers =>
    refine stepUntilBlocked_of_progress ?_
    rw [step_of_drainingTrailers rfl] at h ⊢
    cases hl : nextLine input with
    | tooLong | incomplete => rw [hl] at h; cases h
    | line l r =>
      rw [nextLine_append hl]
      rw [hl] at h
      dsimp only at h ⊢
      split_ifs at h ⊢
      · cases h
      · cases h
        rfl
  | done => cases h

theorem stepUntilBlocked_eq_ok {said : ChunkedStep} (h : d.stepUntilBlocked = (d', .ok said)) :
    (∀ x, (d.push x).stepUntilBlocked = (d'.push x).stepUntilBlocked) ∧
      (d'.isDone ↔ said = .done) := by
  rw [isDone, beq_iff_eq]
  induction d using progress_induct with
  | ih d ih =>
    rcases hstep : d.step with ⟨d₁, _ | _ | _ | _⟩
    · rw [stepUntilBlocked_of_stop hstep nofun] at h
      cases h
    · rw [stepUntilBlocked_of_stop hstep nofun] at h
      cases h
      obtain rfl : d' = d := step_spec hstep
      refine ⟨fun _ => rfl, fun hdone => ?_, nofun⟩
      rw [step_of_done hdone] at hstep
      cases hstep
    · rw [stepUntilBlocked_of_progress hstep] at h
      obtain ⟨hpush, hdone⟩ := ih d₁ hstep h
      exact ⟨fun x => (stepUntilBlocked_push_of_progress hstep x).trans (hpush x), hdone⟩
    · rw [stepUntilBlocked_of_stop hstep nofun] at h
      cases h
      obtain ⟨hdone, h₁⟩ := step_spec hstep
      refine ⟨fun x => ?_, fun _ => rfl, fun _ => hdone⟩
      have h₂ : (d'.push x).step = (d'.push x, .ok .done) := step_of_done hdone
      rw [stepUntilBlocked_of_stop (h₁ x) nofun, stepUntilBlocked_of_stop h₂ nofun]

end ChunkedDecoder

open ChunkedDecoder

/-! ## Runs -/

/-- What a run has come to. -/
inductive Verdict
  | needsMore
  | done
  | failed
  deriving DecidableEq

/-- What a decoder says of the bytes it has. -/
def Verdict.of : Except ChunkError ChunkedStep → Verdict
  | .ok .done => .done
  | .ok _ => .needsMore
  | .error _ => .failed

/-- Bytes that are pushed at once, and whether the body is drained after them. -/
structure Piece where
  bytes : Bytes
  drain : Bool

/-- What the pieces are together. -/
def stream (pieces : List Piece) : Bytes := pieces.flatMap Piece.bytes

theorem stream_cons (p : Piece) (pieces : List Piece) :
    stream (p :: pieces) = p.bytes ++ stream pieces := flatMap_cons

theorem stream_append (a b : List Piece) : stream (a ++ b) = stream a ++ stream b :=
  flatMap_append

theorem stream_singleton (p : Piece) : stream [p] = p.bytes := flatMap_singleton _ _

/-- A run: what was drained so far, the decoder, and what it said last. -/
structure Run where
  drained : Bytes
  decoder : ChunkedDecoder
  verdict : Verdict

/-- How a run ends: the data, drained or not, and what was not read unless it failed. -/
structure Ending where
  verdict : Verdict
  body : Bytes
  unread : Option Bytes

namespace Run

def start (bodyCap : Nat) : Run := ⟨[], .new bodyCap, .needsMore⟩

/-- Pushes a piece, unless the run has failed, and drains the body if that is asked for. -/
def feed (r : Run) (p : Piece) : Run :=
  if r.verdict = .failed then r
  else
    let out := (r.decoder.push p.bytes).stepUntilBlocked
    if p.drain then ⟨r.drained ++ out.1.takeBody.1, out.1.takeBody.2, .of out.2⟩
    else ⟨r.drained, out.1, .of out.2⟩

/-- How the run ends here. -/
def ending (r : Run) : Ending :=
  ⟨r.verdict, r.drained ++ r.decoder.body,
    if r.verdict = .failed then none else some r.decoder.input⟩

end Run

/-- The decoder is fed piece by piece. -/
def run (bodyCap : Nat) (pieces : List Piece) : Run := pieces.foldl .feed (.start bodyCap)

/-- How the decoder ends that gets a stream at once: as its reading says, but for a line that
    overshoots. -/
def Reading.ending (x : Reading) : Ending :=
  match x.status with
  | .line part => if overshoots part then ⟨.failed, x.body, none⟩
      else ⟨.needsMore, x.body, some part⟩
  | .data part => ⟨.needsMore, x.body, some part⟩
  | .complete rest => ⟨.done, x.body, some rest⟩
  | .malformed => ⟨.failed, x.body, none⟩

theorem Reading.ending_body (x : Reading) : x.ending.body = x.body := by
  rw [ending]
  split
  · split_ifs <;> rfl
  · rfl
  · rfl
  · rfl

theorem Reading.status_of_done {x : Reading} (h : x.ending.verdict = .done) :
    ∃ rest, x.status = .complete rest ∧ x.ending.unread = some rest := by
  rw [ending] at h ⊢
  split at h
  · split_ifs at h
  · cases h
  · next rest hrest =>
    rw [hrest]
    exact ⟨rest, rfl, rfl⟩
  · cases h

/-- The decoder refuses the bytes. -/
def refused (bodyCap : Nat) (s : Bytes) : Prop :=
  (read (decoderLimits bodyCap) 0 s).ending.verdict = .failed

instance (bodyCap : Nat) (s : Bytes) : Decidable (refused bodyCap s) :=
  inferInstanceAs (Decidable (_ = _))

variable {bodyCap : Nat} {s t u v : Bytes} {r : Run}

theorem ending_eq_of_refused (hs : refused bodyCap s) (ht : refused bodyCap t)
    (hbody : (read (decoderLimits bodyCap) 0 s).body = (read (decoderLimits bodyCap) 0 t).body) :
    (read (decoderLimits bodyCap) 0 s).ending = (read (decoderLimits bodyCap) 0 t).ending := by
  have hfailed (x : Reading) (h : x.ending.verdict = .failed) :
      x.ending = ⟨.failed, x.body, none⟩ := by
    rw [Reading.ending] at h ⊢
    split at h
    · split_ifs at h ⊢
      rfl
    · cases h
    · cases h
    · rfl
  rw [hfailed _ hs, hfailed _ ht, hbody]

/-- A run that has taken the bytes `u`, and whose decoder said `out` last: what is in it is in the
    decoder that gets them at once. -/
structure Took (bodyCap : Nat) (u : Bytes) (out : Except ChunkError ChunkedStep) (r : Run) :
    Prop where
  eq : ((new bodyCap).push u).stepUntilBlocked = (r.decoder.prepend r.drained, out)
  verdict : r.verdict = .of out

variable {out : Except ChunkError ChunkedStep}

theorem Took.ending (h : Took bodyCap u out r) :
    r.ending = (read (decoderLimits bodyCap) 0 u).ending := by
  have hagree := agrees_stepUntilBlocked
    (d := (new bodyCap).push u) rfl
  rw [h.eq] at hagree
  simp only [push, new, nil_append, Agrees, prepend] at hagree
  obtain ⟨hbody, hstatus⟩ := hagree
  rw [Run.ending, h.verdict, hbody, Reading.ending]
  cases hread : (read (decoderLimits bodyCap) 0 u).status with
  | line part =>
    rw [hread] at hstatus
    dsimp only at hstatus ⊢
    by_cases hover : overshoots part
    · rw [if_pos hover] at hstatus
      obtain ⟨e, rfl⟩ := hstatus
      rw [if_pos hover]
      rfl
    · rw [if_neg hover] at hstatus
      obtain ⟨rfl, hinput⟩ := hstatus
      rw [if_neg hover, hinput]
      rfl
  | data part | complete rest =>
    rw [hread] at hstatus
    obtain ⟨rfl, hinput⟩ := hstatus
    rw [hinput]
    rfl
  | malformed =>
    rw [hread] at hstatus
    obtain ⟨e, rfl⟩ := hstatus
    rfl

theorem Took.refused_iff (h : Took bodyCap u out r) : refused bodyCap u ↔ r.verdict = .failed := by
  rw [refused, ← h.ending]
  rfl

theorem took_start (bodyCap : Nat) : Took bodyCap [] (.ok .needMore) (.start bodyCap) := by
  refine ⟨?_, rfl⟩
  rw [stepUntilBlocked_of_stop (step_of_incomplete rfl (nextLine_eq_incomplete.2
      ⟨rfl, Nat.zero_le _⟩)) nofun]
  rfl

theorem Took.feed (h : Took bodyCap u out r) (hok : r.verdict ≠ .failed) (p : Piece) :
    Took bodyCap (u ++ p.bytes) (r.decoder.push p.bytes).stepUntilBlocked.2 (r.feed p) := by
  obtain ⟨said, rfl⟩ : ∃ said, out = .ok said := by
    cases out with
    | error e => exact absurd h.verdict hok
    | ok said => exact ⟨said, rfl⟩
  have hpush : (new bodyCap).push (u ++ p.bytes) = ((new bodyCap).push u).push p.bytes := by
    simp [push]
  have hnext := (stepUntilBlocked_eq_ok h.eq).1 p.bytes
  rw [← hpush, show (r.decoder.prepend r.drained).push p.bytes =
    (r.decoder.push p.bytes).prepend r.drained from rfl,
    stepUntilBlocked_prepend] at hnext
  rw [Run.feed, if_neg hok]
  split_ifs
  · refine ⟨hnext.trans ?_, rfl⟩
    simp [takeBody, prepend]
  · exact ⟨hnext, rfl⟩

/-- The part of a stream that a run takes: as far as the piece that makes it fail. -/
def taken (bodyCap : Nat) (u : Bytes) : List Piece → Bytes
  | [] => u
  | p :: pieces =>
    if refused bodyCap (u ++ p.bytes) then u ++ p.bytes else taken bodyCap (u ++ p.bytes) pieces

theorem Took.foldl (h : Took bodyCap u out r) (hok : r.verdict ≠ .failed) (pieces : List Piece) :
    (pieces.foldl .feed r).ending = (read (decoderLimits bodyCap) 0 (taken bodyCap u pieces)).ending := by
  induction pieces generalizing u r out with
  | nil => exact h.ending
  | cons p pieces ih =>
    have h' := h.feed hok p
    rw [foldl_cons, taken]
    split_ifs with hrefused
    · -- After a failure nothing is pushed.
      have hfailed := h'.refused_iff.1 hrefused
      have hrest (l : List Piece) : l.foldl Run.feed (r.feed p) = r.feed p := by
        induction l with
        | nil => rfl
        | cons q l ih =>
          rw [foldl_cons, show (r.feed p).feed q = r.feed p from if_pos hfailed, ih]
      rw [hrest, h'.ending]
    · exact ih h' (h'.refused_iff.not.1 hrefused)

theorem run_ending (bodyCap : Nat) (pieces : List Piece) : (run bodyCap pieces).ending =
      (read (decoderLimits bodyCap) 0 (taken bodyCap [] pieces)).ending :=
  (took_start bodyCap).foldl nofun pieces

theorem taken_singleton (u : Bytes) (p : Piece) : taken bodyCap u [p] = u ++ p.bytes := by
  rw [taken]
  split_ifs <;> rfl

theorem exists_taken (bodyCap : Nat) (u : Bytes) (pieces : List Piece) :
    ∃ a b, pieces = a ++ b ∧ taken bodyCap u pieces = u ++ stream a ∧
      (b = [] ∨ refused bodyCap (u ++ stream a)) := by
  induction pieces generalizing u with
  | nil => exact ⟨[], [], rfl, (append_nil u).symm, .inl rfl⟩
  | cons p pieces ih =>
    rw [taken]
    split_ifs with hrefused
    · exact ⟨[p], pieces, rfl, by rw [stream_singleton], .inr (by rwa [stream_singleton])⟩
    · obtain ⟨a, b, rfl, htaken, hb⟩ := ih (u ++ p.bytes)
      rw [append_assoc] at htaken hb
      exact ⟨p :: a, b, rfl, htaken, hb⟩

theorem taken_of_refused (u : Bytes) (a b : List Piece) (hu : ¬ refused bodyCap u)
    (hrefused : refused bodyCap (u ++ stream a)) :
    taken bodyCap u (a ++ b) <+: u ++ stream a := by
  induction a generalizing u with
  | nil => exact absurd (by rwa [stream, flatMap_nil, append_nil] at hrefused) hu
  | cons p a ih =>
    rw [stream_cons, ← append_assoc] at hrefused ⊢
    rw [cons_append, taken]
    split_ifs with hp
    · exact prefix_append _ _
    · exact ih (u ++ p.bytes) hp hrefused

/-! ## Where the pieces matter -/

/-- `u` ends within the line break of a line that is just as long as the cap, and the line feed
    follows. -/
def CutsLongLine (bodyCap : Nat) (u v : Bytes) : Prop :=
  ∃ part, (read (decoderLimits bodyCap) 0 u).status = .line part ∧ overshoots part ∧
    v.head? = some lf

theorem CutsLongLine.refused (h : CutsLongLine bodyCap u v) : refused bodyCap u := by
  obtain ⟨part, hstatus, hover, -⟩ := h
  rw [Codec.refused, Reading.ending, hstatus]
  dsimp only
  rw [if_pos hover]

theorem nextLine_of_overshoots {part : Bytes}
    (hpart : (decoderLimits bodyCap).nextLine part = .incomplete) (hover : overshoots part)
    (hv : v ≠ []) (hlf : v.head? ≠ some lf) :
    (decoderLimits bodyCap).nextLine (part ++ v) = .tooLong := by
  have hlong : nextLine part = .tooLong := by
    rw [nextLine_eq_limits bodyCap, hpart]
    exact if_pos hover
  rcases nextLine_append_of_tooLong hlong v with h | ⟨l, w, -, rfl, -, -⟩
  · rw [nextLine_eq_limits bodyCap] at h
    cases hnext : (decoderLimits bodyCap).nextLine (part ++ v) with
    | tooLong => rfl
    | line l r =>
      rw [hnext] at h
      cases h
    | incomplete =>
      -- The bytes are then at most one more than the cap, but the first part is more already.
      rw [Limits.nextLine] at hnext
      have hlen := length_pos_of_ne_nil hv
      have hover' : maxChunkLine < part.length := of_decide_eq_true hover
      split at hnext
      · split_ifs at hnext with hallows
        simp only [Limits.allowsPart, decoderLimits, Option.all_some, decide_eq_true_eq,
          length_append] at hallows
        omega
      · split_ifs at hnext
  · exact absurd rfl hlf

theorem refused_append (h : refused bodyCap u) (v : Bytes) :
    CutsLongLine bodyCap u v ∨ refused bodyCap (u ++ v) ∧
      (read (decoderLimits bodyCap) 0 (u ++ v)).body = (read (decoderLimits bodyCap) 0 u).body := by
  have hext := read_append (decoderLimits bodyCap) 0 u v
  by_cases hv : v = []
  · subst hv
    rw [append_nil]
    exact .inr ⟨h, rfl⟩
  have hfailed := h
  rw [refused, Reading.ending] at hfailed
  cases hstatus : (read (decoderLimits bodyCap) 0 u).status with
  | line part =>
    rw [hstatus] at hfailed
    dsimp only at hfailed
    split_ifs at hfailed with hover
    by_cases hlf : v.head? = some lf
    · exact .inl ⟨part, hstatus, hover, hlf⟩
    · obtain ⟨hpart, hlong⟩ := hext.line part hstatus
      rw [refused, hlong (nextLine_of_overshoots hpart hover hv hlf)]
      exact .inr ⟨rfl, rfl⟩
  | data part | complete rest => rw [hstatus] at hfailed; cases hfailed
  | malformed =>
    rw [refused, hext.malformed hstatus]
    exact .inr ⟨h, rfl⟩

/-- Whatever pieces a message comes in and wherever its body is drained: when all its lines are
    shorter than the cap, the decoder finds the data and leaves what follows. -/
theorem run_encode (m : Message) (rest : Bytes) {pieces : List Piece}
    (hpieces : stream pieces = m.encode ++ rest) (hlines : ∀ l ∈ m.lines, l.length < maxChunkLine)
    (hsizes : ∀ c ∈ m.chunks, c.data.length < UInt64.size) (hcap : m.body.length ≤ bodyCap) :
    (run bodyCap pieces).ending = ⟨.done, m.body, some rest⟩ := by
  have hread (n : Nat) (hn : maxChunkLine ≤ n + 1) :
      read ⟨some n, some bodyCap⟩ 0 (stream pieces) = ⟨m.body, .complete rest⟩ := by
    rw [hpieces]
    refine read_encode m (fun l hl => ?_) hsizes (by simpa using hcap) rest
    exact decide_eq_true (le_of_lt_succ ((hlines l hl).trans_le hn))
  obtain ⟨a, b, rfl, htaken, hb⟩ := exists_taken bodyCap [] pieces
  rw [nil_append] at htaken hb
  rw [stream_append] at hread
  rw [run_ending, htaken]
  have hwhole := hread maxChunkLine (le_succ _)
  rcases hb with rfl | hrefused
  · exact congrArg Reading.ending (append_nil _ ▸ hwhole)
  -- What was taken reads alike with the cap on lines and with one that is lower by one.
  have hpart (n : Nat) (hn : maxChunkLine ≤ n + 1) :
      read .unlimited 0 (stream a) = read ⟨some n, some bodyCap⟩ 0 (stream a) := by
    refine (read_unlimited 0 _).eq fun hmal => ?_
    rw [← (read_append _ 0 (stream a) (stream b)).malformed hmal, hread n hn] at hmal
    cases hmal
  rcases refused_append hrefused (stream b) with ⟨part, hstatus, hover, -⟩ | ⟨hall, -⟩
  · rw [decoderLimits, ← hpart _ (le_succ _), hpart (maxChunkLine - 1) (by decide)] at hstatus
    have hnext := ((read_append _ 0 (stream a) (stream b)).line part hstatus).1
    grind [Limits.nextLine, Limits.allowsPart, overshoots, maxChunkLine, maxHeadBytes]
  · rw [refused, decoderLimits, hwhole] at hall
    cases hall

theorem run_encode_sampleMessage :
    (run 4 ((sampleMessage.encode ++ utf8 "HTTP").map fun b => ⟨[b], true⟩)).ending =
      ⟨.done, utf8 "Wiki", some (utf8 "HTTP")⟩ :=
  run_encode sampleMessage _ (by decide) (by decide) (by decide) (by decide)

/-- A run over pieces ends as the run that gets all of them at once. -/
def EndsAlike (bodyCap : Nat) (pieces : List Piece) : Prop :=
  (run bodyCap pieces).ending = (run bodyCap [⟨stream pieces, false⟩]).ending

theorem endsAlike_iff_taken (pieces : List Piece) : EndsAlike bodyCap pieces ↔
      (read (decoderLimits bodyCap) 0 (taken bodyCap [] pieces)).ending =
        (read (decoderLimits bodyCap) 0 (stream pieces)).ending := by
  rw [EndsAlike, run_ending, run_ending, taken_singleton, nil_append]

/-- The pieces make no difference, unless one ends within the line break of a size line or trailer
    of just the longest length and more comes of it than a failure with the same data. -/
theorem endsAlike_iff (bodyCap : Nat) (pieces : List Piece) : EndsAlike bodyCap pieces ↔
      ∀ a b, pieces = a ++ b → CutsLongLine bodyCap (stream a) (stream b) →
        refused bodyCap (stream pieces) ∧
          (read (decoderLimits bodyCap) 0 (stream pieces)).body =
            (read (decoderLimits bodyCap) 0 (stream a)).body := by
  rw [endsAlike_iff_taken]
  constructor
  · intro h a b hab hcut
    subst hab
    have hstart : ¬ refused bodyCap [] := (took_start bodyCap).refused_iff.not.2 nofun
    obtain ⟨v, hv⟩ := taken_of_refused [] a b hstart hcut.refused
    obtain ⟨a', b', hpieces, htaken, hb'⟩ := exists_taken bodyCap [] (a ++ b)
    rw [nil_append] at hv htaken hb'
    have hrefused : refused bodyCap (taken bodyCap [] (a ++ b)) := by
      rcases hb' with rfl | hb'
      · -- All is taken, so what is refused is all there is.
        rw [append_nil] at hpieces
        rw [← hpieces] at htaken
        have hsub := IsPrefix.length_le ⟨v, hv⟩
        rw [htaken, stream_append, length_append] at hsub
        have hnil : stream b = [] := eq_nil_of_length_eq_zero (by omega)
        rw [htaken, stream_append, hnil, append_nil]
        exact hcut.refused
      · rwa [htaken]
    refine ⟨by rwa [refused, ← h], ?_⟩
    -- The data of `a` lies between that of what was taken and that of all.
    have hbody := congrArg Ending.body h
    rw [Reading.ending_body, Reading.ending_body] at hbody
    have h1 := (read_append (decoderLimits bodyCap) 0 (taken bodyCap [] (a ++ b)) v).body
    have h2 := (read_append (decoderLimits bodyCap) 0 (stream a) (stream b)).body
    rw [hv, hbody] at h1
    rw [← stream_append] at h2
    exact h1.eq_of_length (le_antisymm h1.length_le h2.length_le)
  · intro h
    obtain ⟨a, b, rfl, htaken, hb⟩ := exists_taken bodyCap [] pieces
    rw [nil_append] at htaken hb
    rw [htaken]
    rcases hb with rfl | hrefused
    · rw [append_nil]
    have hall : refused bodyCap (stream (a ++ b)) ∧
        (read (decoderLimits bodyCap) 0 (stream (a ++ b))).body =
          (read (decoderLimits bodyCap) 0 (stream a)).body := by
      rcases refused_append hrefused (stream b) with hcut | hsame
      · exact h a b rfl hcut
      · rwa [stream_append]
    exact ending_eq_of_refused hrefused hall.1 hall.2.symm

theorem refused_of_longestLine {l : Bytes} (hl : ¬ crlf <:+: l) (hlen : l.length = maxChunkLine) :
    refused bodyCap (l ++ [cr]) := by
  have hlen' : (l ++ [cr]).length = maxChunkLine + 1 := by
    rw [length_append, hlen, length_singleton]
  have hpart : (decoderLimits bodyCap).nextLine (l ++ [cr]) = .incomplete := by
    have hnone := position_pair_concat cr_ne_lf ((position_eq_none_iff crlf_ne_nil).2 hl)
    have hallows : (decoderLimits bodyCap).allowsPart (l ++ [cr]) :=
      decide_eq_true (.inr ⟨hlen', getLast?_concat⟩)
    rw [Limits.nextLine, crlf, hnone]
    exact if_pos hallows
  have hover : overshoots (l ++ [cr]) := decide_eq_true (by omega)
  rw [refused, read_eq, hpart, Reading.ending]
  dsimp only
  rw [if_pos hover]

theorem not_endsAlike_of_longestLine {ext : Extension} (hext : ext.bytes.length + 1 = maxChunkLine) :
    ¬ EndsAlike bodyCap [⟨lastLine ⟨[], 0, ext, []⟩ ++ [cr], false⟩, ⟨lf :: crlf, false⟩] := by
  have hlen : (lastLine ⟨[], 0, ext, []⟩).length = maxChunkLine := by
    rw [lastLine, length_append, ← hext, add_comm]
    rfl
  have hrefused : refused bodyCap (lastLine ⟨[], 0, ext, []⟩ ++ [cr]) := refused_of_longestLine
      (not_infix_digits_append (fun b hb => isDigit_of_mem_sizeDigits hb) ext) hlen
  have hwhole : lastLine ⟨[], 0, ext, []⟩ ++ [cr] ++ lf :: crlf =
      encode ⟨[], 0, ext, []⟩ ++ [] := by
    simp [encode, encodeTrailers, crlf]
  have hread : read (decoderLimits bodyCap) 0 (encode ⟨[], 0, ext, []⟩ ++ []) =
      ⟨[], .complete []⟩ := by
    refine read_encode _ (fun l hl => ?_) (fun c hc => absurd hc not_mem_nil)
      (fun cap _ => Nat.zero_le cap) []
    rw [mem_singleton.1 hl]
    simp [hlen, Limits.allowsLine, decoderLimits]
  rw [endsAlike_iff_taken, taken, nil_append, if_pos hrefused]
  intro h
  have hverdict := congrArg Ending.verdict h
  rw [hrefused, stream_cons, stream_singleton, hwhole, hread] at hverdict
  cases hverdict

/-- The extension `;aa…` of some length. -/
def longExtension (n : Nat) : Extension where
  bytes := 0x3b :: List.replicate n 0x61
  shape := .inr ⟨[], _, rfl, fun _ h => nomatch h⟩
  noBreak := by
    rw [← position_eq_none_iff crlf_ne_nil, ← append_nil (_ :: _)]
    refine (position_append_of_notMem fun h => ?_).trans rfl
    rcases mem_cons.1 h with h | h
    · exact absurd h (by decide)
    · exact absurd (eq_of_mem_replicate h) (by decide)

theorem length_longExtension (n : Nat) : (longExtension n).bytes.length = n + 1 := by
  rw [longExtension, length_cons, length_replicate]

theorem not_endsAlike_longExtension :
    ¬ EndsAlike 0 [⟨lastLine ⟨[], 0, longExtension 65534, []⟩ ++ [cr], false⟩,
      ⟨lf :: crlf, false⟩] :=
  not_endsAlike_of_longestLine ((congrArg (· + 1) (length_longExtension 65534)).trans rfl)

end ZeroProxy.Codec
