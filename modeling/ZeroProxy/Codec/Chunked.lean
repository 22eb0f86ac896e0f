import ZeroProxy.Http.Headers
import ZeroProxy.Machine.Run

/-!
# The chunked decoder

`ChunkedDecoder` (`zp-transport-codec/src/http1.rs`): a machine of five states that is fed the
bytes of a connection as they arrive and collects the data of the chunks.

What a stream says is read off the whole of it, with no machine and no buffers: a size line, as
many bytes of data, a line break, and so on as far as the stream goes. This reading is what the
decoder is to find out, however the bytes reach it.
-/

namespace ZeroProxy.Codec

section

open Bytes Http List Option Text

/-- `MAX_HEAD_BYTES`. -/
def maxHeadBytes : Nat := 64 * 1024

/-- `MAX_CHUNK_LINE`. -/
def maxChunkLine : Nat := maxHeadBytes

def cr : UInt8 := 13

def lf : UInt8 := 10

/-- `CHUNK_TERMINATOR`. -/
def crlf : Bytes := [cr, lf]

theorem cr_ne_lf : cr ≠ lf := by decide

theorem crlf_ne_nil : crlf ≠ [] := cons_ne_nil _ _

/-! ## Size lines -/

/-- The errors of the decoder. -/
inductive ChunkError
  /-- `invalid chunk-size line`. -/
  | invalidSizeLine (line : Text)
  /-- `chunk size`: the number does not fit 64 bits. -/
  | sizeOverflow
  /-- `chunk line exceeded cap`. -/
  | lineTooLong
  /-- `chunked body exceeded cap`. -/
  | bodyTooLong
  /-- `missing CRLF after chunk data`. -/
  | missingCrlf
  deriving DecidableEq

/-- The value of a hexadecimal digit. -/
def digitValue (c : Char) : Option Nat :=
  let n := c.toNat
  if 0x30 ≤ n && n ≤ 0x39 then some (n - 0x30)
  else if 0x61 ≤ n && n ≤ 0x66 then some (n - 0x61 + 10)
  else if 0x41 ≤ n && n ≤ 0x46 then some (n - 0x41 + 10)
  else none

/-- The number that hexadecimal digits are. -/
def hexNumber (digits : Text) : Nat := digits.foldl (fun n c => 16 * n + (digitValue c).getD 0) 0

/-- The size of a chunk, and whether it ends the body. -/
structure ChunkSize where
  size : Nat
  isTerminal : Bool

/-- A size line is read up to its extensions. -/
def parseChunkSizeLine (line : Text) : Except ChunkError ChunkSize :=
  let head := rustTrim (line.takeWhile (· != ';'))
  if head.isEmpty then .error (.invalidSizeLine line)
  else if !head.all (fun c => (digitValue c).isSome) then .error (.invalidSizeLine line)
  else if UInt64.size ≤ hexNumber head then .error .sizeOverflow
  else .ok ⟨hexNumber head, hexNumber head == 0⟩

theorem isTerminal_of_parse {line : Text} {cs : ChunkSize} (h : parseChunkSizeLine line = .ok cs) :
    cs.isTerminal = (cs.size == 0) := by
  rw [parseChunkSizeLine] at h
  split_ifs at h
  cases h
  rfl

/-! ## The machine -/

/-- What the decoder waits for. -/
inductive ChunkedState
  | waitingForSize
  | readingBody (remaining : Nat)
  | waitingForCrlfAfterBody
  | drainingTrailers
  | done
  deriving DecidableEq

open ChunkedState

/-- The decoder waits for a line. -/
def ChunkedState.readsLine (s : ChunkedState) : Bool :=
  s == .waitingForSize || s == .drainingTrailers

/-- What a step of the decoder reports. -/
inductive ChunkedStep
  | needMore
  | progress
  | done
  deriving DecidableEq

/-- The decoder: its state, what it has not read, the body so far and its cap. -/
structure ChunkedDecoder where
  state : ChunkedState
  input : Bytes
  body : Bytes
  bodyCap : Nat
  received : Nat

namespace ChunkedDecoder

def new (bodyCap : Nat) : ChunkedDecoder := ⟨.waitingForSize, [], [], bodyCap, 0⟩

/-- More input arrives. -/
def push (d : ChunkedDecoder) (input : Bytes) : ChunkedDecoder := { d with input := d.input ++ input }

/-- The caller takes the body so far. -/
def takeBody (d : ChunkedDecoder) : Bytes × ChunkedDecoder := (d.body, { d with body := [] })

def isDone (d : ChunkedDecoder) : Bool := d.state == .done

def hasRemainingInput (d : ChunkedDecoder) : Bool := !d.input.isEmpty

/-- A line is taken from the input. -/
def consumeLine (d : ChunkedDecoder) : Option (Text × ChunkedDecoder) :=
  match position crlf d.input with
  | none => none
  | some pos => some (fromUtf8Lossy (d.input.take pos), { d with input := d.input.drop (pos + 2) })

/-- `step`: the decoder after one transition, and what it says. -/
def step (d : ChunkedDecoder) : ChunkedDecoder × Except ChunkError ChunkedStep :=
  if d.state.readsLine && decide (maxChunkLine < (position crlf d.input).getD d.input.length) then
    (d, .error .lineTooLong)
  else match d.state with
  | .waitingForSize =>
    match d.consumeLine with
    | none => (d, .ok .needMore)
    | some (line, d) =>
      match parseChunkSizeLine line with
      | .error e => (d, .error e)
      | .ok cs =>
        if cs.isTerminal then ({ d with state := .drainingTrailers }, .ok .progress)
        else if d.bodyCap - d.received < cs.size then (d, .error .bodyTooLong)
        else ({ d with received := d.received + cs.size, state := .readingBody cs.size },
          .ok .progress)
  | .readingBody remaining =>
    if remaining = 0 then ({ d with state := .waitingForCrlfAfterBody }, .ok .progress)
    else if d.input.length = 0 then (d, .ok .needMore)
    else
      let take := min remaining d.input.length
      let left := remaining - take
      ({ d with
          body := d.body ++ d.input.take take
          input := d.input.drop take
          state := if left = 0 then .waitingForCrlfAfterBody else .readingBody left },
        .ok .progress)
  | .waitingForCrlfAfterBody =>
    if d.input.length < crlf.length then (d, .ok .needMore)
    else if d.input.take crlf.length ≠ crlf then (d, .error .missingCrlf)
    else ({ d with input := d.input.drop crlf.length, state := .waitingForSize }, .ok .progress)
  | .drainingTrailers =>
    match d.consumeLine with
    | none => (d, .ok .needMore)
    | some (line, d) =>
      if line.isEmpty then ({ d with state := .done }, .ok .done)
      -- Trailers are not given to anyone.
      else (d, .ok .progress)
  | .done => (d, .ok .done)

/-! ## Lines -/

/-- What is known of a size line. -/
inductive LineResult
  | tooLong
  | incomplete
  | line (line rest : Bytes)

/-- The next line, if all of it has arrived, as the cap on lines allows. -/
def nextLine (input : Bytes) : LineResult :=
  if maxChunkLine < (position crlf input).getD input.length then .tooLong
  else match position crlf input with
  | none => .incomplete
  | some pos => .line (input.take pos) (input.drop (pos + 2))

variable {d d' : ChunkedDecoder}

theorem nextLine_eq_line {s l r : Bytes} :
    nextLine s = .line l r ↔
      s = l ++ crlf ++ r ∧ position crlf l = none ∧ l.length ≤ maxChunkLine := by
  constructor
  · intro h
    rw [nextLine] at h
    split_ifs at h with hlong
    cases hpos : position crlf s with
    | none => rw [hpos] at h; cases h
    | some pos =>
      simp only [hpos, getD_some] at h hlong
      obtain ⟨rfl, rfl⟩ := h
      have hle := position_le hpos
      refine ⟨(take_append_drop_position hpos).symm, ?_, by rw [length_take]; omega⟩
      -- A line break within the line would have been found before.
      cases hl : position crlf (s.take pos) with
      | none => rfl
      | some q =>
        have hq := position_append hl (s.drop pos)
        rw [take_append_drop, hpos] at hq
        have := position_le hl
        rw [length_take, ← some.inj hq] at this
        simp only [crlf, length_cons] at this
        omega
  · rintro ⟨rfl, hl, hlen⟩
    have hpos : position crlf (l ++ crlf ++ r) = some l.length := by
      rw [append_assoc]
      exact position_pair cr_ne_lf hl r
    have hlen2 : l.length + 2 = (l ++ crlf).length := by rw [length_append]; rfl
    rw [nextLine, hpos, getD_some, if_neg (by omega)]
    dsimp only
    rw [hlen2, drop_left, append_assoc, take_left]

theorem nextLine_eq_incomplete {s : Bytes} :
    nextLine s = .incomplete ↔ position crlf s = none ∧ s.length ≤ maxChunkLine := by
  constructor
  · intro h
    rw [nextLine] at h
    split_ifs at h with hlong
    cases hpos : position crlf s with
    | none => exact ⟨rfl, by rw [hpos, getD_none] at hlong; omega⟩
    | some pos => rw [hpos] at h; cases h
  · rintro ⟨hpos, hlen⟩
    rw [nextLine, hpos, getD_none, if_neg (by omega)]

theorem nextLine_append {s l r : Bytes} (h : nextLine s = .line l r) (t : Bytes) :
    nextLine (s ++ t) = .line l (r ++ t) := by
  obtain ⟨rfl, hl, hlen⟩ := nextLine_eq_line.1 h
  exact nextLine_eq_line.2 ⟨by simp [append_assoc], hl, hlen⟩

theorem nextLine_append_of_tooLong {s : Bytes} (h : nextLine s = .tooLong) (t : Bytes) :
    nextLine (s ++ t) = .tooLong ∨ ∃ l v, s = l ++ [cr] ∧ t = lf :: v ∧
      l.length = maxChunkLine ∧ position crlf l = none := by
  rw [nextLine] at h
  split_ifs at h with hlong
  · cases hs : position crlf s with
    | some pos =>
      rw [hs, getD_some] at hlong
      exact .inl (by rw [nextLine, position_append hs, getD_some, if_pos hlong])
    | none =>
      rw [hs, getD_none] at hlong
      cases hst : position crlf (s ++ t) with
      | none =>
        have : maxChunkLine < (s ++ t).length := by rw [length_append]; omega
        exact .inl (by rw [nextLine, hst, getD_none, if_pos this])
      | some pos =>
        by_cases hpos : maxChunkLine < pos
        · exact .inl (by rw [nextLine, hst, getD_some, if_pos hpos])
        · obtain ⟨l, v, rfl, rfl, rfl⟩ := eq_concat_of_position_pair hs hst (by omega)
          rw [length_append, length_singleton] at hlong
          exact .inr ⟨l, v, rfl, rfl, by omega, position_eq_none_of_append hs⟩
  · cases hs : position crlf s with
    | none | some pos => rw [hs] at h; cases h

/-! ## One transition at a time -/

theorem step_of_waitingForSize (h : d.state = .waitingForSize) :
    d.step = match nextLine d.input with
      | .tooLong => (d, .error .lineTooLong)
      | .incomplete => (d, .ok .needMore)
      | .line line rest =>
        match parseChunkSizeLine (fromUtf8Lossy line) with
        | .error e => ({ d with input := rest }, .error e)
        | .ok cs =>
          if cs.isTerminal then ({ d with input := rest, state := .drainingTrailers }, .ok .progress)
          else if d.bodyCap - d.received < cs.size then ({ d with input := rest }, .error .bodyTooLong)
          else ({ d with input := rest, received := d.received + cs.size,
                         state := .readingBody cs.size }, .ok .progress) := by
  obtain ⟨state, input, body, bodyCap, received⟩ := d
  obtain rfl : state = .waitingForSize := h
  rw [step, nextLine, consumeLine]
  simp only [readsLine, beq_self_eq_true, Bool.true_or, Bool.true_and, decide_eq_true_eq]
  split_ifs with hlong
  · rfl
  · cases position crlf input with
    | none | some pos => rfl

theorem step_of_drainingTrailers (h : d.state = .drainingTrailers) :
    d.step = match nextLine d.input with
      | .tooLong => (d, .error .lineTooLong)
      | .incomplete => (d, .ok .needMore)
      | .line line rest =>
        if line = [] then ({ d with input := rest, state := .done }, .ok .done)
        else ({ d with input := rest }, .ok .progress) := by
  obtain ⟨state, input, body, bodyCap, received⟩ := d
  obtain rfl : state = .drainingTrailers := h
  rw [step, nextLine, consumeLine]
  simp only [readsLine, beq_self_eq_true, Bool.or_true, Bool.true_and, decide_eq_true_eq]
  split_ifs with hlong
  · rfl
  · cases position crlf input with
    | none => rfl
    | some pos => simp [fromUtf8Lossy_eq_nil]

theorem eq_of_readsLine (h : d.state.readsLine) :
    d.state = .waitingForSize ∨ d.state = .drainingTrailers := by
  rwa [readsLine, Bool.or_eq_true, beq_iff_eq, beq_iff_eq] at h

theorem step_of_tooLong (hstate : d.state.readsLine) (h : nextLine d.input = .tooLong) :
    d.step = (d, .error .lineTooLong) := by
  rcases eq_of_readsLine hstate with hs | hs
  · rw [step_of_waitingForSize hs, h]
  · rw [step_of_drainingTrailers hs, h]

theorem step_of_incomplete (hstate : d.state.readsLine) (h : nextLine d.input = .incomplete) :
    d.step = (d, .ok .needMore) := by
  rcases eq_of_readsLine hstate with hs | hs
  · rw [step_of_waitingForSize hs, h]
  · rw [step_of_drainingTrailers hs, h]

theorem step_of_readingBody {remaining : Nat} (h : d.state = .readingBody remaining) : d.step =
      if remaining = 0 then ({ d with state := .waitingForCrlfAfterBody }, .ok .progress)
      else if d.input.length = 0 then (d, .ok .needMore)
      else ({ d with
          body := d.body ++ d.input.take remaining
          input := d.input.drop remaining
          state := if remaining - d.input.length = 0 then .waitingForCrlfAfterBody
            else .readingBody (remaining - d.input.length) }, .ok .progress) := by
  rw [step, h]
  have hmin : remaining - min remaining d.input.length = remaining - d.input.length := by omega
  have htake : d.input.take (min remaining d.input.length) = d.input.take remaining := by
    rw [take_eq_take_iff]; omega
  have hdrop : d.input.drop (min remaining d.input.length) = d.input.drop remaining := by
    rcases le_total remaining d.input.length with hle | hle
    · rw [min_eq_left hle]
    · rw [min_eq_right hle, drop_length, drop_eq_nil_of_le hle]
  simp only [hmin, htake, hdrop]
  rfl

theorem step_of_waitingForCrlf (h : d.state = .waitingForCrlfAfterBody) :
    d.step = match d.input with
      | [] | [_] => (d, .ok .needMore)
      | a :: b :: rest =>
        if a = cr ∧ b = lf then ({ d with input := rest, state := .waitingForSize }, .ok .progress)
        else (d, .error .missingCrlf) := by
  obtain ⟨state, input, body, bodyCap, received⟩ := d
  obtain rfl : state = .waitingForCrlfAfterBody := h
  rcases input with _ | ⟨a, _ | ⟨b, rest⟩⟩
  · rfl
  · rfl
  have hlen : ¬ (a :: b :: rest).length < crlf.length := by
    simp only [crlf, length_cons, length_nil]
    omega
  have htake : (a :: b :: rest).take crlf.length = crlf ↔ a = cr ∧ b = lf := by simp [crlf]
  rw [step, if_neg (by simp [readsLine])]
  dsimp only
  rw [if_neg hlen]
  by_cases hab : a = cr ∧ b = lf
  · rw [if_neg (not_not.2 (htake.2 hab)), if_pos hab]
    rfl
  · rw [if_pos (htake.not.2 hab), if_neg hab]

theorem step_of_done (h : d.state = .done) : d.step = (d, .ok .done) := by
  rw [step, h]
  rfl

/-! ## The loop -/

/-- What is left to do: every transition takes input, or ends a chunk. -/
def weight (d : ChunkedDecoder) : Nat :=
  2 * d.input.length + match d.state with
    | .readingBody _ => 1
    | _ => 0

variable {out : Except ChunkError ChunkedStep}

/-- A step takes input or ends a chunk, unless it changes nothing or is the last one, which more
    bytes do not change. -/
theorem step_spec (h : d.step = (d', out)) : match out with
    | .ok .progress => d'.weight < d.weight
    | .ok .needMore => d' = d
    | .ok .done => d'.state = .done ∧ ∀ x, (d.push x).step = (d'.push x, .ok .done)
    | .error _ => True := by
  obtain ⟨state, input, body, bodyCap, received⟩ := d
  have hline {l r : Bytes} (hl : nextLine input = .line l r) : r.length + 2 ≤ input.length := by
    rw [(nextLine_eq_line.1 hl).1]
    simp only [length_append, crlf, length_cons]
    omega
  cases state with
  | waitingForSize =>
    rw [step_of_waitingForSize rfl] at h
    split at h
    · cases h
      trivial
    · cases h
      rfl
    next l r hl =>
    have := hline hl
    split at h
    · cases h
      trivial
    · split_ifs at h <;> cases h <;> simp only [weight] <;> omega
  | readingBody remaining =>
    rw [step_of_readingBody rfl] at h
    dsimp only at h
    split_ifs at h with h0 hempty <;> cases h <;> simp only [weight, length_drop] <;> omega
  | waitingForCrlfAfterBody =>
    rw [step_of_waitingForCrlf rfl] at h
    rcases input with _ | ⟨a, _ | ⟨b, rest⟩⟩
    · cases h
      rfl
    · cases h
      rfl
    · dsimp only at h
      split_ifs at h <;> cases h
      · simp only [weight, length_cons]
        omega
      · trivial
  | drainingTrailers =>
    rw [step_of_drainingTrailers rfl] at h
    split at h
    · cases h
      trivial
    · cases h
      rfl
    next l r hl =>
    have := hline hl
    split_ifs at h with hl' <;> cases h
    · refine ⟨rfl, fun x => ?_⟩
      rw [step_of_drainingTrailers rfl]
      dsimp only [push]
      rw [nextLine_append hl]
      exact if_pos hl'
    · simp only [weight]
      omega
  | done =>
    cases h
    exact ⟨rfl, fun _ => rfl⟩

/-- Steps are made while there is progress. -/
def stepUntilBlocked (d : ChunkedDecoder) : ChunkedDecoder × Except ChunkError ChunkedStep :=
  match _h : d.step with
  | (d', .ok .progress) => d'.stepUntilBlocked
  | out => out
termination_by d.weight
decreasing_by exact step_spec _h

theorem stepUntilBlocked_of_progress (h : d.step = (d', .ok .progress)) :
    d.stepUntilBlocked = d'.stepUntilBlocked := by
  rw [stepUntilBlocked]
  split
  · next d₁ h₁ => rw [h, Prod.mk.injEq] at h₁; rw [h₁.1]
  · next hne => exact absurd h (hne d')

theorem stepUntilBlocked_of_stop (h : d.step = (d', out))
    (hout : out ≠ .ok .progress) : d.stepUntilBlocked = (d', out) := by
  rw [stepUntilBlocked]
  split
  · next d₁ h₁ => rw [h, Prod.mk.injEq] at h₁; exact absurd h₁.2 hout
  · exact h

theorem progress_induct {P : ChunkedDecoder → Prop}
    (ih : ∀ d, (∀ d', d.step = (d', .ok .progress) → P d') → P d) (d : ChunkedDecoder) : P d := by
  generalize hn : d.weight = n
  induction n using Nat.strong_induction_on generalizing d with
  | _ n hind => exact ih d fun d' h => hind d'.weight (hn ▸ step_spec h) d' rfl

end ChunkedDecoder

end

section

namespace ChunkedDecoder

/-! ## Bounds -/

open Http List Machine

/-- The bytes that the current chunk still owes. -/
def owed (d : ChunkedDecoder) : Nat :=
  match d.state with
  | .readingBody remaining => remaining
  | _ => 0

/-- A call of the decoder. -/
inductive Call
  | push (input : Bytes)
  | step
  | stepUntilBlocked
  | drain

/-- The decoder and what was drained from it, after a call. -/
def use (u : ChunkedDecoder × Bytes) : Call → ChunkedDecoder × Bytes
  | .push input => (u.1.push input, u.2)
  | .step => (u.1.step.1, u.2)
  | .stepUntilBlocked => (u.1.stepUntilBlocked.1, u.2)
  | .drain => (u.1.takeBody.2, u.2 ++ u.1.takeBody.1)

/-- The counter is right when `drained` bytes are no longer in the decoder. The differences of the
    model are cut off at zero, so one that went below it would show here. -/
structure Counted (cap drained : Nat) (d : ChunkedDecoder) : Prop where
  bodyCap : d.bodyCap = cap
  received : d.received = drained + d.body.length + d.owed
  capped : d.received ≤ cap

variable {d : ChunkedDecoder} {cap drained : Nat}

theorem Counted.step (h : Counted cap drained d) : Counted cap drained d.step.1 := by
  obtain ⟨state, input, body, bodyCap, received⟩ := d
  have hcap := h.bodyCap
  have hreceived := h.received
  have hcapped := h.capped
  dsimp only at hcap hreceived hcapped
  cases state with
  | waitingForSize =>
    rw [step_of_waitingForSize rfl]
    dsimp only
    split
    · exact h
    · exact h
    split
    · exact ⟨hcap, hreceived, hcapped⟩
    · split_ifs with hterminal hlong
      · exact ⟨hcap, hreceived, hcapped⟩
      · exact ⟨hcap, hreceived, hcapped⟩
      · exact ⟨hcap, by dsimp only [owed] at *; omega, by dsimp only; omega⟩
  | readingBody remaining =>
    rw [step_of_readingBody rfl]
    dsimp only [owed] at hreceived
    split_ifs with hzero hempty hleft
    · exact ⟨hcap, by dsimp only [owed]; omega, hcapped⟩
    · exact h
    all_goals
      refine ⟨hcap, ?_, hcapped⟩
      dsimp only [owed] at *
      rw [length_append, length_take]
      omega
  | waitingForCrlfAfterBody =>
    rw [step_of_waitingForCrlf rfl]
    dsimp only
    split
    · exact h
    · exact h
    · split_ifs <;> exact ⟨hcap, hreceived, hcapped⟩
  | drainingTrailers =>
    rw [step_of_drainingTrailers rfl]
    dsimp only
    split
    · exact h
    · exact h
    · split_ifs <;> exact ⟨hcap, hreceived, hcapped⟩
  | done => exact h

theorem Counted.stepUntilBlocked (h : Counted cap drained d) :
    Counted cap drained d.stepUntilBlocked.1 := by
  induction d using progress_induct with
  | ih d ih =>
    by_cases hout : d.step.2 = .ok .progress
    · have hstep : d.step = (d.step.1, .ok .progress) := Prod.ext rfl hout
      rw [stepUntilBlocked_of_progress hstep]
      exact ih _ hstep h.step
    · rw [stepUntilBlocked_of_stop rfl hout]
      exact h.step

/-- `step_until_blocked` in at most so many steps. -/
def stepsWithin : Nat → ChunkedDecoder → Option (ChunkedDecoder × Except ChunkError ChunkedStep)
  | 0, _ => none
  | n + 1, d =>
    match d.step with
    | (d', .ok .progress) => stepsWithin n d'
    | out => some out

theorem stepsWithin_of_weight_lt {n : Nat} (h : d.weight < n) :
    stepsWithin n d = some d.stepUntilBlocked := by
  induction n generalizing d with
  | zero => cases h
  | succ n ih =>
    rw [stepsWithin]
    split
    · next d' hstep =>
      have hlt : d'.weight < d.weight := step_spec hstep
      rw [stepUntilBlocked_of_progress hstep, ih (by omega)]
    · next hne =>
      have hstop : d.stepUntilBlocked = (d.step.1, d.step.2) :=
        stepUntilBlocked_of_stop rfl fun hout => hne d.step.1 (Prod.ext rfl hout)
      rw [hstop]

/-- However the decoder is called, the body is within its cap, no count reaches `2 ^ 64`, and the
    steps that are due are bounded by the input. -/
theorem bounds_of_calls (cap : UInt64) (calls : List Call) :
    let u := run use (new cap.toNat, []) calls
    u.2.length + u.1.body.length ≤ cap.toNat ∧
      u.1.received = u.2.length + u.1.body.length + u.1.owed ∧ u.1.received < UInt64.size ∧
      stepsWithin (2 * u.1.input.length + 2) u.1 = some u.1.stepUntilBlocked := by
  intro u
  have hu : Counted cap.toNat u.2.length u.1 := by
    refine run_induction (I := fun u : ChunkedDecoder × Bytes => Counted cap.toNat u.2.length u.1)
      ⟨rfl, rfl, Nat.zero_le _⟩ fun u call _ h => ?_
    cases call with
    | push input => exact ⟨h.bodyCap, h.received, h.capped⟩
    | step => exact h.step
    | stepUntilBlocked => exact h.stepUntilBlocked
    | drain =>
      refine ⟨h.bodyCap, ?_, h.capped⟩
      have := h.received
      simpa [use, takeBody, owed] using this
  have hcap := cap.toNat_lt
  have hreceived := hu.received
  have hcapped := hu.capped
  refine ⟨by omega, hreceived, lt_of_le_of_lt hcapped hcap, stepsWithin_of_weight_lt ?_⟩
  rw [weight]
  split <;> omega

end ChunkedDecoder

end

section

open Bytes Http List Option

/-- Bounds on the lines and on the body, where there are any. -/
structure Limits where
  line : Option Nat
  body : Option Nat

namespace Limits

/-- No limits. -/
def unlimited : Limits := ⟨none, none⟩

variable (lim : Limits)

/-- A line may have this length. -/
def allowsLine (n : Nat) : Bool := lim.line.all fun m => decide (n ≤ m)

/-- An allowed line may begin with the bytes: they end before its line break, or in it. -/
def allowsPart (s : Bytes) : Bool :=
  lim.line.all fun m => decide (s.length ≤ m ∨ s.length = m + 1 ∧ s.getLast? = some cr)

/-- A chunk of this size may follow. -/
def allowsChunk (received size : Nat) : Bool := lim.body.all fun m => decide (size ≤ m - received)

def nextLine (s : Bytes) : ChunkedDecoder.LineResult :=
  match position crlf s with
  | none => if lim.allowsPart s then .incomplete else .tooLong
  | some pos => if lim.allowsLine pos then .line (s.take pos) (s.drop (pos + 2)) else .tooLong

end Limits

open Limits

/-- How a stream ends. -/
inductive Status
  /-- In a size line or a trailer line, of which these bytes are there. -/
  | line (part : Bytes)
  /-- In the data of a chunk or the line break after it; these bytes are of the latter. -/
  | data (part : Bytes)
  /-- After the last chunk and its trailers there are these bytes. -/
  | complete (rest : Bytes)
  /-- It is not chunked coding within the limits, whatever follows. -/
  | malformed
  deriving DecidableEq

/-- The data of a stream, and how it ends. -/
structure Reading where
  body : Bytes
  status : Status

def Reading.after (data : Bytes) (x : Reading) : Reading := ⟨data ++ x.body, x.status⟩

/-- The size in a line, `none` for an error. -/
def chunkSize (line : Bytes) : Option Nat :=
  match parseChunkSizeLine (fromUtf8Lossy line) with
  | .ok cs => some cs.size
  | .error _ => none

variable (lim : Limits)

theorem Limits.length_lt_of_nextLine {s l r : Bytes} (h : lim.nextLine s = .line l r) :
    r.length < s.length := by
  rw [nextLine] at h
  split at h
  · split_ifs at h
  next pos hpos =>
  split_ifs at h
  cases h
  have := position_le hpos
  simp only [crlf, length_cons] at this
  rw [length_drop]
  omega

/-- Lines are read up to an empty one. -/
def readTrailers (s : Bytes) : Status :=
  match _h : lim.nextLine s with
  | .tooLong => .malformed
  | .incomplete => .line s
  | .line [] r => .complete r
  | .line _ r => readTrailers r
termination_by s.length
decreasing_by exact lim.length_lt_of_nextLine _h

/-- The reading of a stream, when the chunks before it had so many bytes. -/
def read (received : Nat) (s : Bytes) : Reading :=
  match _h : lim.nextLine s with
  | .tooLong => ⟨[], .malformed⟩
  | .incomplete => ⟨[], .line s⟩
  | .line l r =>
    match chunkSize l with
    | none => ⟨[], .malformed⟩
    | some 0 => ⟨[], readTrailers lim r⟩
    | some (k + 1) =>
      if !lim.allowsChunk received (k + 1) then ⟨[], .malformed⟩
      else Reading.after (r.take (k + 1)) <| match _hr : r.drop (k + 1) with
        | [] => ⟨[], .data []⟩
        | [a] => ⟨[], .data [a]⟩
        | a :: b :: rest =>
          if a = cr ∧ b = lf then read (received + (k + 1)) rest else ⟨[], .malformed⟩
termination_by s.length
decreasing_by
  have h1 := lim.length_lt_of_nextLine _h
  have h2 := congrArg List.length _hr
  simp only [length_drop, length_cons] at h2
  omega

def readBreak (received : Nat) : Bytes → Reading
  | [] => ⟨[], .data []⟩
  | [a] => ⟨[], .data [a]⟩
  | a :: b :: rest => if a = cr ∧ b = lf then read lim received rest else ⟨[], .malformed⟩

def readChunk (received : Nat) (size : Option Nat) (r : Bytes) : Reading :=
  match size with
  | none => ⟨[], .malformed⟩
  | some 0 => ⟨[], readTrailers lim r⟩
  | some (k + 1) =>
    if !lim.allowsChunk received (k + 1) then ⟨[], .malformed⟩
    else (readBreak lim (received + (k + 1)) (r.drop (k + 1))).after (r.take (k + 1))

variable {lim} {s l r t : Bytes} {n : Nat}

theorem readTrailers_eq : readTrailers lim s = match lim.nextLine s with
    | .tooLong => .malformed
    | .incomplete => .line s
    | .line [] r => .complete r
    | .line _ r => readTrailers lim r := by
  rw [readTrailers]
  split <;> simp [*]

theorem read_eq : read lim n s = match lim.nextLine s with
    | .tooLong => ⟨[], .malformed⟩
    | .incomplete => ⟨[], .line s⟩
    | .line l r => readChunk lim n (chunkSize l) r := by
  rw [read]
  split
  · next h => rw [h]
  · next h => rw [h]
  next l r h =>
  rw [h]
  dsimp only
  cases chunkSize l with
  | none => rfl
  | some k =>
    cases k with
    | zero => rfl
    | succ k =>
      refine if_congr Iff.rfl rfl (congrArg _ ?_)
      split <;> simp [*, readBreak]

theorem Limits.nextLine_line (hl : ¬ crlf <:+: l) (hlen : lim.allowsLine l.length) (r : Bytes) :
    lim.nextLine (l ++ crlf ++ r) = .line l r := by
  have hpos : position crlf (l ++ crlf ++ r) = some l.length := by
    rw [append_assoc]
    exact position_pair cr_ne_lf ((position_eq_none_iff crlf_ne_nil).2 hl) r
  rw [nextLine, hpos]
  dsimp only
  rw [if_pos hlen, show l.length + 2 = (l ++ crlf).length by rw [length_append]; rfl,
    drop_left, append_assoc, take_left]

/-! ## Longer streams -/

theorem Limits.nextLine_append (h : lim.nextLine s = .line l r) (t : Bytes) :
    lim.nextLine (s ++ t) = .line l (r ++ t) := by
  rw [nextLine] at h
  split at h
  · split_ifs at h
  next pos hpos =>
  split_ifs at h with hlen
  have hle : pos + 2 ≤ s.length := position_le hpos
  cases h
  rw [nextLine, position_append hpos]
  dsimp only
  rw [if_pos hlen, take_append_of_le_length (by omega), drop_append_of_le_length hle]

theorem Limits.nextLine_append_of_tooLong (h : lim.nextLine s = .tooLong) (t : Bytes) :
    lim.nextLine (s ++ t) = .tooLong := by
  rw [nextLine] at h
  cases hs : position crlf s with
  | some pos =>
    rw [hs] at h
    dsimp only at h
    split_ifs at h with hlen
    rw [nextLine, position_append hs]
    exact if_neg hlen
  | none =>
    rw [hs] at h
    split_ifs at h with hpart
    obtain ⟨_ | m, body⟩ := lim
    · exact absurd rfl hpart
    simp only [allowsPart, all_some, decide_eq_true_eq, not_or, not_and] at hpart
    obtain ⟨hlong, hlast⟩ := hpart
    -- The bytes are more than `m`, and when they are just one more that is no carriage return.
    cases hst : position crlf (s ++ t) with
    | none =>
      rw [nextLine, hst]
      refine if_neg ?_
      simp only [allowsPart, all_some, decide_eq_true_eq, not_or, not_and, length_append]
      refine ⟨by omega, fun hlen => ?_⟩
      obtain rfl : t = [] := eq_nil_of_length_eq_zero (by omega)
      rw [append_nil]
      exact hlast (by omega)
    | some pos =>
      rw [nextLine, hst]
      refine if_neg ?_
      simp only [allowsLine, all_some, decide_eq_true_eq]
      intro hpos
      obtain ⟨u, v, rfl, rfl, rfl⟩ := eq_concat_of_position_pair hs hst (by omega)
      rw [length_append, length_singleton] at hlong hlast
      exact hlast (by omega) getLast?_concat

/-- How the reading of a stream goes on when bytes follow. -/
structure Reading.Extends (lim : Limits) (x y : Reading) (t : Bytes) : Prop where
  body : x.body <+: y.body
  line : ∀ part, x.status = .line part → lim.nextLine part = .incomplete ∧
    (lim.nextLine (part ++ t) = .tooLong → y = ⟨x.body, .malformed⟩)
  complete : ∀ rest, x.status = .complete rest → y = ⟨x.body, .complete (rest ++ t)⟩
  malformed : x.status = .malformed → y = x

namespace Reading

theorem Extends.refl_malformed (b : Bytes) : Extends lim ⟨b, .malformed⟩ ⟨b, .malformed⟩ t :=
  ⟨prefix_rfl, fun _ h => Status.noConfusion h, fun _ h => Status.noConfusion h, fun _ => rfl⟩

theorem Extends.of_data {x y : Reading} {part : Bytes} (hstatus : x.status = .data part)
    (hbody : x.body <+: y.body) : Extends lim x y t := by
  refine ⟨hbody, fun _ h => ?_, fun _ h => ?_, fun h => ?_⟩
  all_goals
    rw [hstatus] at h
    cases h

theorem Extends.of_line {y : Reading} (hs : lim.nextLine s = .incomplete)
    (hy : lim.nextLine (s ++ t) = .tooLong → y = ⟨[], .malformed⟩) :
    Extends lim ⟨[], .line s⟩ y t := by
  refine ⟨List.nil_prefix, fun part h => ?_, fun _ h => Status.noConfusion h,
    fun h => Status.noConfusion h⟩
  obtain rfl : s = part := Status.line.inj h
  exact ⟨hs, hy⟩

theorem Extends.after {x y : Reading} (h : x.Extends lim y t) (data : Bytes) :
    (x.after data).Extends lim (y.after data) t := by
  refine ⟨(prefix_append_right_inj data).2 h.body, fun part hpart => ?_, fun rest hrest => ?_,
    fun hmal => ?_⟩
  · refine ⟨(h.line part hpart).1, fun hlong => ?_⟩
    rw [(h.line part hpart).2 hlong]
    rfl
  · rw [h.complete rest hrest]
    rfl
  · rw [h.malformed hmal]

end Reading

theorem readTrailers_append (s t : Bytes) :
    Reading.Extends lim ⟨[], readTrailers lim s⟩ ⟨[], readTrailers lim (s ++ t)⟩ t := by
  induction hs : s.length using Nat.strong_induction_on generalizing s with
  | _ m ih =>
    rw [readTrailers_eq (s := s), readTrailers_eq (s := s ++ t)]
    cases h : lim.nextLine s with
    | tooLong =>
      rw [nextLine_append_of_tooLong h]
      exact .refl_malformed []
    | incomplete => exact .of_line h fun hlong => by rw [hlong]
    | line l r =>
      rw [nextLine_append h]
      cases l with
      | nil =>
        refine ⟨prefix_rfl, fun _ h => Status.noConfusion h, fun rest h => ?_,
          fun h => Status.noConfusion h⟩
        rw [Status.complete.inj h]
      | cons a l => exact ih r.length (hs ▸ length_lt_of_nextLine lim h) r rfl

theorem read_append (lim : Limits) (n : Nat) (s t : Bytes) :
    (read lim n s).Extends lim (read lim n (s ++ t)) t := by
  induction hs : s.length using Nat.strong_induction_on generalizing n s with
  | _ m ih =>
    rw [read_eq (s := s), read_eq (s := s ++ t)]
    cases h : lim.nextLine s with
    | tooLong =>
      rw [nextLine_append_of_tooLong h]
      exact .refl_malformed []
    | incomplete => exact .of_line h fun hlong => by rw [hlong]
    | line l r =>
      rw [nextLine_append h]
      have hr : r.length < m := hs ▸ length_lt_of_nextLine lim h
      dsimp only
      rcases chunkSize l with _ | _ | k
      · exact .refl_malformed []
      · exact readTrailers_append r t
      dsimp only [readChunk]
      split_ifs
      · exact .refl_malformed []
      rcases lt_or_ge r.length (k + 1) with hlen | hlen
      · -- The data is not all there: what is there stays.
        rw [drop_eq_nil_of_le (by omega), take_of_length_le (by omega)]
        refine .of_data rfl ?_
        rw [take_append, take_of_length_le (by omega : r.length ≤ k + 1),
          Reading.after, Reading.after, append_assoc]
        exact (prefix_append_right_inj r).2 nil_prefix
      rw [drop_append_of_le_length hlen, take_append_of_le_length hlen]
      refine Reading.Extends.after ?_ _
      have hrest := length_drop (i := k + 1) (l := r)
      rcases hdrop : r.drop (k + 1) with _ | ⟨a, _ | ⟨b, rest⟩⟩
      · exact .of_data rfl nil_prefix
      · exact .of_data rfl nil_prefix
      · simp only [cons_append, readBreak]
        split_ifs
        · rw [hdrop, length_cons, length_cons] at hrest
          exact ih rest.length (by omega) _ rest rfl
        · exact .refl_malformed []

/-! ## Limits only refuse -/

/-- A reading within limits, compared with the one without. -/
structure Reading.Restricts (x y : Reading) : Prop where
  body : x.body <+: y.body
  eq : x.status ≠ .malformed → y = x

theorem Reading.Restricts.after {x y : Reading} (h : x.Restricts y) (data : Bytes) :
    (x.after data).Restricts (y.after data) :=
  ⟨(prefix_append_right_inj data).2 h.body, fun hne => by rw [h.eq hne]⟩

theorem Limits.nextLine_unlimited (h : lim.nextLine s ≠ .tooLong) :
    unlimited.nextLine s = lim.nextLine s := by
  rw [nextLine] at h
  rw [nextLine, nextLine]
  cases hpos : position crlf s with
  | none =>
    rw [hpos] at h
    split_ifs at h with hpart
    · rw [if_pos hpart]
      exact if_pos rfl
    · exact absurd rfl h
  | some pos =>
    rw [hpos] at h
    dsimp only at h ⊢
    split_ifs at h with hline
    · rw [if_pos hline]
      exact if_pos rfl
    · exact absurd rfl h

theorem readTrailers_unlimited (s : Bytes) :
    Reading.Restricts ⟨[], readTrailers lim s⟩ ⟨[], readTrailers .unlimited s⟩ := by
  induction hs : s.length using Nat.strong_induction_on generalizing s with
  | _ m ih =>
    refine ⟨prefix_rfl, fun hne => ?_⟩
    rw [readTrailers_eq] at hne ⊢
    rw [readTrailers_eq]
    by_cases h : lim.nextLine s = .tooLong
    · rw [h] at hne
      exact absurd rfl hne
    rw [nextLine_unlimited h]
    cases hl : lim.nextLine s with
    | tooLong => exact absurd hl h
    | incomplete => rfl
    | line l r =>
      rw [hl] at hne
      cases l with
      | nil => rfl
      | cons a l => exact (ih r.length (hs ▸ length_lt_of_nextLine lim hl) r rfl).eq hne

theorem read_unlimited (n' : Nat) (s : Bytes) : (read lim n s).Restricts (read .unlimited n' s) := by
  induction hs : s.length using Nat.strong_induction_on generalizing n n' s with
  | _ m ih =>
    rw [read_eq (s := s), read_eq (s := s)]
    by_cases h : lim.nextLine s = .tooLong
    · rw [h]
      exact ⟨List.nil_prefix, fun hne => absurd rfl hne⟩
    rw [nextLine_unlimited h]
    cases hl : lim.nextLine s with
    | tooLong => exact absurd hl h
    | incomplete => exact ⟨prefix_rfl, fun _ => rfl⟩
    | line l r =>
      have hr : r.length < m := hs ▸ length_lt_of_nextLine lim hl
      dsimp only
      rcases chunkSize l with _ | _ | k
      · exact ⟨prefix_rfl, fun _ => rfl⟩
      · exact readTrailers_unlimited r
      dsimp only [readChunk]
      rw [if_neg (c := (!unlimited.allowsChunk n' (k + 1))) Bool.false_ne_true]
      split_ifs
      · exact ⟨List.nil_prefix, fun hne => absurd rfl hne⟩
      refine Reading.Restricts.after ?_ _
      have hrest := length_drop (i := k + 1) (l := r)
      rcases hdrop : r.drop (k + 1) with _ | ⟨a, _ | ⟨b, rest⟩⟩
      · exact ⟨prefix_rfl, fun _ => rfl⟩
      · exact ⟨prefix_rfl, fun _ => rfl⟩
      · simp only [readBreak]
        split_ifs
        · rw [hdrop, length_cons, length_cons] at hrest
          exact ih rest.length (by omega) _ rest rfl
        · exact ⟨prefix_rfl, fun _ => rfl⟩

/-! ## The decoder -/

/-- The limits of the decoder. -/
def decoderLimits (bodyCap : Nat) : Limits := ⟨some maxChunkLine, some bodyCap⟩

/-- The bytes end one short of a line as long as the cap, in its line break: the decoder counts
    the carriage return and refuses the line. -/
def overshoots (part : Bytes) : Bool := decide (maxChunkLine < part.length)

/-- What the decoder finds: the data is added to its body, and it says how the stream ends. -/
def Agrees (body : Bytes) (x : Reading)
    (out : ChunkedDecoder × Except ChunkError ChunkedStep) : Prop :=
  out.1.body = body ++ x.body ∧ match x.status with
    | .line part => if overshoots part then ∃ e, out.2 = .error e
        else out.2 = .ok .needMore ∧ out.1.input = part
    | .data part => out.2 = .ok .needMore ∧ out.1.input = part
    | .complete rest => out.2 = .ok .done ∧ out.1.input = rest
    | .malformed => ∃ e, out.2 = .error e

namespace ChunkedDecoder

variable {d : ChunkedDecoder}

theorem nextLine_eq_limits (cap : Nat) (s : Bytes) :
    nextLine s = match (decoderLimits cap).nextLine s with
      | .incomplete => if overshoots s then .tooLong else .incomplete
      | x => x := by
  rw [nextLine, Limits.nextLine]
  cases hpos : position crlf s with
  | none =>
    simp only [getD_none, allowsPart, decoderLimits, all_some, decide_eq_true_eq, overshoots]
    split_ifs with hlong hpart hpart
    · rfl
    · rfl
    · rfl
    · omega
  | some pos =>
    simp only [getD_some, allowsLine, decoderLimits, all_some, decide_eq_true_eq]
    by_cases hline : pos ≤ maxChunkLine
    · rw [if_neg (by omega), if_pos hline]
    · rw [if_pos (by omega), if_neg hline]

theorem nextLine_of_limits {cap : Nat} {s l r : Bytes}
    (h : (decoderLimits cap).nextLine s = .line l r) : nextLine s = .line l r := by
  rw [nextLine_eq_limits cap, h]

theorem agrees_of_error {e : ChunkError} {d' : ChunkedDecoder} (h : d.step = (d', .error e))
    (hbody : d'.body = d.body) : Agrees d.body ⟨[], .malformed⟩ d.stepUntilBlocked := by
  rw [stepUntilBlocked_of_stop h nofun]
  exact ⟨by rw [hbody, append_nil], e, rfl⟩

theorem agrees_of_tooLong (hstate : d.state.readsLine)
    (h : (decoderLimits d.bodyCap).nextLine d.input = .tooLong) :
    Agrees d.body ⟨[], .malformed⟩ d.stepUntilBlocked := by
  have hnext := nextLine_eq_limits d.bodyCap d.input
  rw [h] at hnext
  exact agrees_of_error (step_of_tooLong hstate hnext) rfl

theorem agrees_of_incomplete (hstate : d.state.readsLine)
    (h : (decoderLimits d.bodyCap).nextLine d.input = .incomplete) :
    Agrees d.body ⟨[], .line d.input⟩ d.stepUntilBlocked := by
  have hnext := nextLine_eq_limits d.bodyCap d.input
  rw [h] at hnext
  rw [Agrees]
  dsimp only
  split_ifs at hnext ⊢
  · rw [stepUntilBlocked_of_stop (step_of_tooLong hstate hnext) nofun]
    exact ⟨(append_nil _).symm, _, rfl⟩
  · rw [stepUntilBlocked_of_stop (step_of_incomplete hstate hnext) nofun]
    exact ⟨(append_nil _).symm, rfl, rfl⟩

theorem agrees_of_drainingTrailers (hstate : d.state = .drainingTrailers) :
    Agrees d.body ⟨[], readTrailers (decoderLimits d.bodyCap) d.input⟩ d.stepUntilBlocked := by
  have hreads : d.state.readsLine := by rw [hstate]; rfl
  induction hd : d.input.length using Nat.strong_induction_on generalizing d with
  | _ m ih =>
    rw [readTrailers_eq]
    cases h : (decoderLimits d.bodyCap).nextLine d.input with
    | tooLong => exact agrees_of_tooLong hreads h
    | incomplete => exact agrees_of_incomplete hreads h
    | line l r =>
      have hr : r.length < m := hd ▸ length_lt_of_nextLine _ h
      have hstep := step_of_drainingTrailers hstate
      rw [nextLine_of_limits h] at hstep
      cases l with
      | nil =>
        rw [stepUntilBlocked_of_stop hstep nofun]
        exact ⟨(append_nil _).symm, rfl, rfl⟩
      | cons a l =>
        rw [stepUntilBlocked_of_progress hstep]
        exact @ih r.length hr { d with input := r } hstate hreads rfl

theorem Agrees.after {body data : Bytes} {x : Reading}
    {out : ChunkedDecoder × Except ChunkError ChunkedStep} (h : Agrees (body ++ data) x out) :
    Agrees body (x.after data) out :=
  ⟨by rw [h.1, append_assoc]; rfl, h.2⟩

section Chunk

-- The decoder agrees from the next size line on.

variable (ih : ∀ d' : ChunkedDecoder, d'.state = .waitingForSize →
  d'.input.length < d.input.length →
    Agrees d'.body (read (decoderLimits d'.bodyCap) d'.received d'.input) d'.stepUntilBlocked)
include ih

theorem agrees_of_waitingForCrlf (hstate : d.state = .waitingForCrlfAfterBody) :
    Agrees d.body (readBreak (decoderLimits d.bodyCap) d.received d.input) d.stepUntilBlocked := by
  have hstep := step_of_waitingForCrlf hstate
  rcases hd : d.input with _ | ⟨a, _ | ⟨b, rest⟩⟩
  · rw [hd] at hstep
    rw [stepUntilBlocked_of_stop hstep nofun]
    exact ⟨(append_nil _).symm, rfl, hd⟩
  · rw [hd] at hstep
    rw [stepUntilBlocked_of_stop hstep nofun]
    exact ⟨(append_nil _).symm, rfl, hd⟩
  rw [hd] at hstep ih
  dsimp only at hstep
  rw [readBreak]
  split_ifs at hstep ⊢
  · rw [stepUntilBlocked_of_progress hstep]
    exact ih { d with input := rest, state := .waitingForSize } rfl
      (by simp only [length_cons]; omega)
  · exact agrees_of_error hstep rfl

theorem agrees_of_readingBody {size : Nat} (hstate : d.state = .readingBody size)
    (hsize : size ≠ 0) :
    Agrees d.body ((readBreak (decoderLimits d.bodyCap) d.received (d.input.drop size)).after
      (d.input.take size)) d.stepUntilBlocked := by
  have hstep := step_of_readingBody hstate
  rw [if_neg hsize] at hstep
  by_cases hempty : d.input.length = 0
  · -- No byte of the data has arrived.
    rw [if_pos hempty] at hstep
    have hnil := eq_nil_of_length_eq_zero hempty
    rw [stepUntilBlocked_of_stop hstep nofun, hnil, drop_nil, take_nil]
    exact ⟨(append_nil _).symm, rfl, hnil⟩
  rw [if_neg hempty] at hstep
  rw [stepUntilBlocked_of_progress hstep]
  refine Agrees.after ?_
  by_cases hleft : size - d.input.length = 0
  · -- All of it has arrived: the line break is next.
    rw [if_pos hleft]
    refine @agrees_of_waitingForCrlf _ (fun d' hd' hlt => ih d' hd' ?_) rfl
    rw [length_drop] at hlt
    omega
  -- Some of it is missing, and nothing is left to read.
  rw [if_neg hleft, drop_eq_nil_of_le (by omega)]
  have hwait := step_of_readingBody (d := { d with
    body := d.body ++ d.input.take size
    input := []
    state := .readingBody (size - d.input.length) }) rfl
  rw [if_neg hleft] at hwait
  rw [stepUntilBlocked_of_stop hwait nofun]
  exact ⟨(append_nil _).symm, rfl, rfl⟩

end Chunk

theorem agrees_stepUntilBlocked (hstate : d.state = .waitingForSize) :
    Agrees d.body (read (decoderLimits d.bodyCap) d.received d.input) d.stepUntilBlocked := by
  induction hd : d.input.length using Nat.strong_induction_on generalizing d with
  | _ m ih =>
    have hreads : d.state.readsLine := by rw [hstate]; rfl
    rw [read_eq]
    cases h : (decoderLimits d.bodyCap).nextLine d.input with
    | tooLong => exact agrees_of_tooLong hreads h
    | incomplete => exact agrees_of_incomplete hreads h
    | line l r =>
      have hr : r.length < m := hd ▸ length_lt_of_nextLine _ h
      have hstep := step_of_waitingForSize hstate
      rw [nextLine_of_limits h] at hstep
      dsimp only at hstep ⊢
      rw [chunkSize]
      cases hparse : parseChunkSizeLine (fromUtf8Lossy l) with
      | error e =>
        rw [hparse] at hstep
        exact agrees_of_error hstep rfl
      | ok cs =>
        rw [hparse] at hstep
        dsimp only at hstep ⊢
        rw [isTerminal_of_parse hparse] at hstep
        rcases hsize : cs.size with _ | k
        · -- The last chunk.
          rw [hsize, beq_self_eq_true] at hstep
          rw [stepUntilBlocked_of_progress hstep]
          exact agrees_of_drainingTrailers (d := { d with input := r, state := .drainingTrailers }) rfl
        have hcap : (!(decoderLimits d.bodyCap).allowsChunk d.received (k + 1)) ↔
            d.bodyCap - d.received < k + 1 := by
          simp [allowsChunk, decoderLimits]
        rw [hsize] at hstep
        dsimp only [readChunk]
        by_cases hbig : d.bodyCap - d.received < k + 1
        · rw [if_pos hbig] at hstep
          rw [if_pos (hcap.2 hbig)]
          exact agrees_of_error hstep rfl
        rw [if_neg hbig] at hstep
        rw [if_neg (hcap.not.2 hbig), stepUntilBlocked_of_progress hstep]
        refine agrees_of_readingBody (d := { d with
          input := r
          received := d.received + (k + 1)
          state := .readingBody (k + 1) }) (fun d' hd' hlt => ?_) rfl (Nat.succ_ne_zero k)
        exact ih d'.input.length (lt_trans hlt hr) hd' rfl

end ChunkedDecoder

end

end ZeroProxy.Codec
