import ZeroProxy.Htmltx.Script

/-!
# The streaming transformer

`HtmlTxn` feeds a document chunk by chunk through the attribute pass and the script pass.
The HTML library calls the handlers of a pass in the order of the document. A text node
that a chunk ends in comes in several pieces, the last one marked as such; everything else
comes whole. The handlers keep state between calls: the content of a script or a style
sheet so far, and whether the prelude has been put in.
-/

namespace ZeroProxy.Htmltx.Stream

open Bool Html List Rewriter Text

/-- The content of a `<style>` element; it stays as it is when it cannot be parsed. -/
def renderStyle (deps : Deps) (opts : TransformOptions) (base css : Text) : Text :=
  (deps.rewriteCss css base controlPrefix opts.proxyOrigin).getD css

/-! ## Documents and chunks -/

/-- A token of the input. -/
inductive Token where
  | start (raw : Text) (el : Element)
  /-- A text node, and whether it is in a `style` or a `script` element. -/
  | text (raw : Text) (inStyle inScript : Bool)
  /-- An end tag, a comment or a doctype. -/
  | other (raw : Text)

def Token.raw : Token → Text
  | start raw _ => raw
  | text raw _ _ => raw
  | other raw => raw

def Token.isStart : Token → Bool
  | start _ _ => true
  | _ => false

/-- A document. -/
structure Doc where
  tokens : List Token
  /-- A text in an element comes after the start tag of the element. -/
  inside : ∀ pre raw st sc post, tokens = pre ++ .text raw st sc :: post →
    (∀ tok ∈ pre, tok.isStart = false) → st = false ∧ sc = false

def rawOf (tokens : List Token) : Text := tokens.flatMap Token.raw

/-- A call of the handlers. A piece of a text says whether it is the last one. -/
inductive Event where
  | start (raw : Text) (el : Element)
  | text (piece : Text) (last inStyle inScript : Bool)
  | other (raw : Text)

/-- A chunk ends at a position. -/
def boundary (chunks : List Text) (n : Nat) : Bool :=
  (List.range (chunks.length + 1)).any fun k => (chunks.take k).flatten.length == n

/-- A text that begins at `pos`, cut at the positions inside it. -/
def pieces (cut : Nat → Bool) : Nat → Text → List Text
  | _, [] => [[]]
  | _, [c] => [[c]]
  | pos, c :: d :: s =>
    if cut (pos + 1) then [c] :: pieces cut (pos + 1) (d :: s)
    else match pieces cut (pos + 1) (d :: s) with
      | p :: ps => (c :: p) :: ps
      | [] => [[c]]

/-- The calls for the pieces of a text node. -/
def pieceEvents (st sc : Bool) : List Text → List Event
  | [] => []
  | [p] => [.text p true st sc]
  | p :: q :: ps => .text p false st sc :: pieceEvents st sc (q :: ps)

/-- The calls for a token at `pos`. -/
def tokenEvents (cut : Nat → Bool) (pos : Nat) : Token → List Event
  | .start raw el => [.start raw el]
  | .text raw st sc => pieceEvents st sc (pieces cut pos raw)
  | .other raw => [.other raw]

/-- The calls for some tokens, the first of them at `pos`. -/
def tokensEvents (cut : Nat → Bool) : Nat → List Token → List Event
  | _, [] => []
  | pos, tok :: toks =>
    tokenEvents cut pos tok ++ tokensEvents cut (pos + tok.raw.length) toks

/-- The calls for a document in chunks. -/
def Doc.events (doc : Doc) (chunks : List Text) : List Event :=
  tokensEvents (boundary chunks) 0 doc.tokens

/-! ## The two passes -/

/-- A part of the output. -/
inductive Segment where
  | prelude
  | start (raw : Text) (el : Element)
  | text (t : Text)
  /-- What is put in the place of a script or a style sheet. -/
  | content (t : Text)
  | other (raw : Text)

open Segment

def Segment.isPrelude : Segment → Bool
  | prelude => true
  | _ => false

/-- The state of the handlers. -/
structure Txn where
  /-- The base URL that the attribute pass has come to. -/
  base : Text
  currentKind : Option InlineKind
  currentBuffer : Text
  styleBuffer : Text
  injected : Bool

open Txn

/-- What is taken from elsewhere. -/
structure Lib where
  deps : Deps
  sdeps : ScriptDeps
  opts : TransformOptions
  prelude : Text
  /-- The markup of a start tag that the attribute pass has changed, given the markup it
      came with. -/
  markup : Text → Element → Text

variable (lib : Lib)

/-- The text of a part of the output. -/
def Segment.write : Segment → Text
  | prelude => lib.prelude
  | start raw _ => raw
  | text t => t
  | content t => t
  | other raw => raw

def written (segs : List Segment) : Text := segs.flatMap (write lib)

/-- A start tag as the script pass reads it in the output of the attribute pass. -/
def reread (el : Element) : Element :=
  { el with attrs := el.attrs.map fun a => ⟨a.name, a.emit, false⟩ }

/-- The elements that the prelude is put into; it is put before others. -/
def isOuter (tag : Text) : Bool := tag ∈ ["html".toList, "head".toList, "body".toList]

/-- What is put in the place of the content of a script: before its last piece, or after
    it. -/
def scriptContent (kind : InlineKind) (src : Text) : List Segment × List Segment :=
  match kind with
  | .importmap => ([], [.content
      ((lib.sdeps.rewriteImportmapJson src lib.opts.targetUrl lib.opts.proxyOrigin).getD src)])
  | .speculationrules => ([], [.content
      ((lib.sdeps.rewriteSpeculationrulesJson src lib.opts.targetUrl lib.opts.proxyOrigin).getD src)])
  | .script k => ([.content (inlineReplacement lib.sdeps lib.opts k src)], [])

/-- The prelude goes in here, unless it has been put in, or is empty. -/
def Txn.injects (σ : Txn) : Bool := !lib.prelude.isEmpty && !σ.injected

def Txn.handleStart (σ : Txn) (raw : Text) (el : Element) : List Segment × Txn :=
  let ((el', _), base) := visitElement lib.deps lib.opts σ.base el
  let tag := reread el'
  let segment := start (lib.markup raw el') tag
  let σ' := { σ with
    base
    currentKind := if tag.tag = "script" then inlineKind tag else σ.currentKind
    injected := σ.injected || σ.injects lib }
  if σ.injects lib then
    (if isOuter tag.tag then [segment, .prelude] else [.prelude, segment], σ')
  else ([segment], σ')

/-- The handlers for the content of style sheets and scripts: a piece of it is taken out,
    and with the last one the new content put in. -/
def Txn.handleContent (σ : Txn) (piece : Text) (last st sc : Bool) : List Segment × Txn :=
  let style := if st then σ.styleBuffer ++ piece else σ.styleBuffer
  let inScript := sc && σ.currentKind.isSome
  let script := if inScript then σ.currentBuffer ++ piece else σ.currentBuffer
  let around :=
    match σ.currentKind with
    | some kind => if sc && last then scriptContent lib kind script else ([], [])
    | none => ([], [])
  let styled := if st && last then
    [content (renderStyle lib.deps lib.opts lib.opts.targetUrl style)] else []
  (around.1 ++ (if st || inScript then [] else [.text piece]) ++ around.2 ++ styled,
    { σ with
      styleBuffer := if st && last then [] else style
      currentBuffer := if inScript && last then [] else script })

def Txn.handleText (σ : Txn) (piece : Text) (last st sc : Bool) : List Segment × Txn :=
  let (segs, σ') := σ.handleContent lib piece last st sc
  if σ.injects lib && !(rustTrim piece).isEmpty then
    (.prelude :: segs, { σ' with injected := true })
  else (segs, σ')

def Txn.handle (σ : Txn) : Event → List Segment × Txn
  | .start raw el => σ.handleStart lib raw el
  | .text piece last st sc => σ.handleText lib piece last st sc
  | .other raw => ([.other raw], σ)

/-- A sequence of calls. -/
def Txn.run : Txn → List Event → List Segment × Txn
  | σ, [] => ([], σ)
  | σ, e :: es =>
    let (segs, σ) := σ.handle lib e
    let (segs', σ) := run σ es
    (segs ++ segs', σ)

/-- `HtmlTxn::new`. -/
def Txn.new : Txn := ⟨lib.opts.targetUrl, none, [], [], false⟩

/-- `HtmlTxn::end`. -/
def Txn.finish (σ : Txn) : List Segment := if σ.injects lib then [.prelude] else []

/-- What `HtmlTxn::write` makes of the calls of one chunk after the other, and `end` of the
    rest. -/
def feedFrom : Txn → List (List Event) → List Segment
  | σ, [] => σ.finish lib
  | σ, es :: batches => (σ.run lib es).1 ++ feedFrom (σ.run lib es).2 batches

def feed (batches : List (List Event)) : List Segment := feedFrom lib (new lib) batches

theorem run_append (σ : Txn) (es es' : List Event) : σ.run lib (es ++ es') =
    ((σ.run lib es).1 ++ ((σ.run lib es).2.run lib es').1, ((σ.run lib es).2.run lib es').2) := by
  induction es generalizing σ with
  | nil => rfl
  | cons e es ih => simp [run, ih]

theorem feed_eq (batches : List (List Event)) : feed lib batches =
    ((new lib).run lib batches.flatten).1 ++ ((new lib).run lib batches.flatten).2.finish lib := by
  rw [feed]
  generalize new lib = σ
  induction batches generalizing σ with
  | nil => rfl
  | cons es batches ih =>
    rw [feedFrom, ih, flatten_cons, run_append, append_assoc]

@[simp] theorem written_append (segs segs' : List Segment) :
    written lib (segs ++ segs') = written lib segs ++ written lib segs' := flatMap_append

@[simp] theorem written_cons (s : Segment) (segs : List Segment) :
    written lib (s :: segs) = s.write lib ++ written lib segs := flatMap_cons

/-! ## Pieces of a text -/

theorem flatten_pieces (cut : Nat → Bool) (pos : Nat) (t : Text) :
    (pieces cut pos t).flatten = t := by
  induction t generalizing pos with
  | nil => rfl
  | cons c t ih =>
    cases t with
    | nil => rfl
    | cons d s =>
      have hs := ih (pos + 1)
      rw [pieces]
      split
      · rw [flatten_cons, hs, singleton_append]
      cases hp : pieces cut (pos + 1) (d :: s) with
      | nil =>
        rw [hp] at hs
        cases hs
      | cons p ps =>
        rw [hp, flatten_cons] at hs
        rw [flatten_cons, cons_append, hs]

theorem pieces_ne_nil (cut : Nat → Bool) (pos : Nat) (t : Text) : pieces cut pos t ≠ [] := by
  cases t with
  | nil => exact cons_ne_nil _ _
  | cons c t =>
    cases t with
    | nil => exact cons_ne_nil _ _
    | cons d s =>
      rw [pieces]
      split
      · exact cons_ne_nil _ _
      · split
        · exact cons_ne_nil _ _
        · exact cons_ne_nil _ _

variable {t : Text} {cut : Nat → Bool} {pos : Nat}

theorem pieces_eq_singleton
    (h : ∀ k, 0 < k → k < t.length → cut (pos + k) = false) : pieces cut pos t = [t] := by
  induction t generalizing pos with
  | nil => rfl
  | cons c t ih =>
    cases t with
    | nil => rfl
    | cons d s =>
      have hrest : pieces cut (pos + 1) (d :: s) = [d :: s] := ih fun k hk hlt => by
        rw [add_assoc, add_comm 1]
        refine h (k + 1) (Nat.succ_pos k) ?_
        rw [length_cons]
        omega
      have hcut := h 1 (Nat.zero_lt_one) (by rw [length_cons, length_cons]; omega)
      rw [pieces, hcut, if_neg Bool.false_ne_true, hrest]

theorem pieces_append {w : Text} (hw : w ≠ []) (ht : t ≠ []) (hcut : cut (pos + w.length)) :
    pieces cut pos (w ++ t) = pieces cut pos w ++ pieces cut (pos + w.length) t := by
  induction w generalizing pos with
  | nil => exact absurd rfl hw
  | cons c w ih =>
    cases w with
    | nil =>
      obtain ⟨d, s, rfl⟩ := exists_cons_of_ne_nil ht
      exact if_pos hcut
    | cons d w =>
      rw [length_cons, add_comm _ 1, ← add_assoc] at hcut ⊢
      rw [cons_append, cons_append, pieces, pieces, ← cons_append, ih (cons_ne_nil _ _) hcut]
      obtain ⟨p, ps, hp⟩ := exists_cons_of_ne_nil (pieces_ne_nil cut (pos + 1) (d :: w))
      rw [hp]
      split_ifs <;> rfl

theorem pieces_eq_pair {w : Text} (hw : w ≠ []) (ht : t ≠ [])
    (hcut : ∀ k, 0 < k → k < (w ++ t).length → (cut (pos + k) ↔ k = w.length)) :
    pieces cut pos (w ++ t) = [w, t] := by
  have hwpos := length_pos_of_ne_nil hw
  have htpos := length_pos_of_ne_nil ht
  rw [length_append] at hcut
  rw [pieces_append hw ht ((hcut _ hwpos (by omega)).2 rfl), pieces_eq_singleton fun k hk hlt => ?_,
    pieces_eq_singleton fun k hk hlt => ?_]
  · rfl
  · rw [← not_eq_true, add_assoc, hcut _ (by omega) (by omega)]
    omega
  · rw [← not_eq_true, hcut k hk (by omega)]
    omega

variable {ps : List Text}

theorem pieceEvents_cons (st sc : Bool) (p : Text) (h : ps ≠ []) :
    pieceEvents st sc (p :: ps) = .text p false st sc :: pieceEvents st sc ps := by
  obtain ⟨q, ps, rfl⟩ := exists_cons_of_ne_nil h
  rfl

/-! ## With the prelude in -/

theorem handleContent_append (σ : Txn) (p q : Text) (last st sc : Bool) :
    written lib ((σ.handleContent lib p false st sc).1 ++
        ((σ.handleContent lib p false st sc).2.handleContent lib q last st sc).1) =
      written lib (σ.handleContent lib (p ++ q) last st sc).1 ∧
    ((σ.handleContent lib p false st sc).2.handleContent lib q last st sc).2 =
      (σ.handleContent lib (p ++ q) last st sc).2 := by
  obtain ⟨base, kind, buffer, style, injected⟩ := σ
  cases kind <;> cases st <;> cases sc <;> cases last <;>
    simp [handleContent, write]

theorem injects_handleContent (σ : Txn) (p : Text) (last st sc : Bool) :
    (σ.handleContent lib p last st sc).2.injects lib = σ.injects lib := rfl

variable {σ : Txn}

theorem handleText_of_not_injects (h : σ.injects lib = false) (p : Text)
    (last st sc : Bool) : σ.handleText lib p last st sc = σ.handleContent lib p last st sc := by
  rw [handleText, h]
  rfl

theorem run_pieces (h : σ.injects lib = false) (st sc : Bool) (hps : ps ≠ []) :
    written lib (σ.run lib (pieceEvents st sc ps)).1 =
      written lib (σ.handleContent lib ps.flatten true st sc).1 ∧
    (σ.run lib (pieceEvents st sc ps)).2 = (σ.handleContent lib ps.flatten true st sc).2 := by
  induction ps generalizing σ with
  | nil => exact absurd rfl hps
  | cons p ps ih =>
    by_cases hnil : ps = []
    · subst hnil
      simp [pieceEvents, run, handle, handleText_of_not_injects lib h]
    · obtain ⟨hout, hstate⟩ := @ih (σ.handleContent lib p false st sc).2 h hnil
      obtain ⟨hout', hstate'⟩ := handleContent_append lib σ p ps.flatten true st sc
      rw [pieceEvents_cons st sc p hnil, flatten_cons, ← hout', ← hstate']
      simp only [run, handle, handleText_of_not_injects lib h]
      exact ⟨by rw [written_append, written_append, hout], hstate⟩

theorem injects_handleStart (σ : Txn) (raw : Text) (el : Element) :
    (σ.handleStart lib raw el).2.injects lib = false := by
  have hboth (x y : List Segment × Txn) (b : Bool) (hx : x.2.injects lib = false)
      (hy : y.2.injects lib = false) : (if b then x else y).2.injects lib = false := by
    cases b
    · exact hy
    · exact hx
  refine hboth _ _ _ ?_ ?_ <;>
    cases hempty : lib.prelude.isEmpty <;> cases hinj : σ.injected <;>
      simp [injects, hinj]

theorem run_tokens (h : σ.injects lib = false) (cut cut' : Nat → Bool) (pos pos' : Nat)
    (toks : List Token) :
    written lib (σ.run lib (tokensEvents cut pos toks)).1 =
      written lib (σ.run lib (tokensEvents cut' pos' toks)).1 ∧
    (σ.run lib (tokensEvents cut pos toks)).2 = (σ.run lib (tokensEvents cut' pos' toks)).2 ∧
    (σ.run lib (tokensEvents cut pos toks)).2.injects lib = false := by
  induction toks generalizing σ pos pos' with
  | nil => exact ⟨rfl, rfl, h⟩
  | cons tok toks ih =>
    -- The first token leaves the same text and the same state.
    have hfirst : written lib (σ.run lib (tokenEvents cut pos tok)).1 =
          written lib (σ.run lib (tokenEvents cut' pos' tok)).1 ∧
        (σ.run lib (tokenEvents cut pos tok)).2 = (σ.run lib (tokenEvents cut' pos' tok)).2 ∧
        (σ.run lib (tokenEvents cut pos tok)).2.injects lib = false := by
      cases tok with
      | start raw el => exact ⟨rfl, rfl, injects_handleStart lib σ raw el⟩
      | other raw => exact ⟨rfl, rfl, h⟩
      | text raw st sc =>
        obtain ⟨hout, hstate⟩ := run_pieces lib h st sc (pieces_ne_nil cut pos raw)
        obtain ⟨hout', hstate'⟩ := run_pieces lib h st sc (pieces_ne_nil cut' pos' raw)
        rw [flatten_pieces] at hout hstate hout' hstate'
        exact ⟨hout.trans hout'.symm, hstate.trans hstate'.symm, by
          rw [tokenEvents, hstate, injects_handleContent, h]⟩
    obtain ⟨hout, hstate, hinj⟩ := hfirst
    obtain ⟨hrest, hend, hinj'⟩ := ih hinj (pos + tok.raw.length) (pos' + tok.raw.length)
    rw [tokensEvents, tokensEvents, run_append, run_append, written_append, written_append, hout,
      ← hstate]
    exact ⟨by rw [hrest], hend, hinj'⟩

/-! ## Before the prelude -/

/-- White space only, for `str::trim`. -/
def blank (t : Text) : Bool := t.all isRustWhitespace

theorem isEmpty_rustTrim (t : Text) : (rustTrim t).isEmpty = blank t := by
  obtain ⟨a, b, ht, ha, hb⟩ := exists_stripBoth isRustWhitespace t
  rw [Bool.eq_iff_iff, List.isEmpty_iff, blank, all_eq_true]
  constructor
  · intro h c hc
    rw [ht, show stripBoth isRustWhitespace t = [] from h, append_nil, mem_append] at hc
    exact hc.elim (ha c) (hb c)
  · intro h
    have hdrop : t.dropWhile isRustWhitespace = [] := dropWhile_eq_nil_iff.2 h
    rw [rustTrim, stripBoth, hdrop]
    rfl

theorem handleContent_plain (σ : Txn) (p : Text) (last : Bool) :
    σ.handleContent lib p last false false = ([.text p], σ) := by
  obtain ⟨base, kind, buffer, style, injected⟩ := σ
  cases kind <;> simp [handleContent]

theorem handleText_blank (σ : Txn) {p : Text} (hp : blank p) (last : Bool) :
    σ.handleText lib p last false false = ([.text p], σ) := by
  rw [handleText, handleContent_plain, isEmpty_rustTrim, hp, Bool.not_true, Bool.and_false]
  rfl

theorem handleText_injects (h : σ.injects lib) {p : Text} (hp : blank p = false)
    (last : Bool) : σ.handleText lib p last false false =
      ([.prelude, .text p], { σ with injected := true }) := by
  rw [handleText, handleContent_plain, isEmpty_rustTrim, hp, h]
  rfl

theorem run_texts (h : ∀ p ∈ ps, ∀ last, σ.handleText lib p last false false = ([.text p], σ)) :
    σ.run lib (pieceEvents false false ps) = (ps.map .text, σ) := by
  induction ps with
  | nil => rfl
  | cons p ps ih =>
    rw [forall_mem_cons] at h
    by_cases hnil : ps = []
    · subst hnil
      simp [pieceEvents, run, handle, h.1]
    · rw [pieceEvents_cons false false p hnil]
      simp [run, handle, h.1, ih h.2]

theorem run_leading (h : σ.injects lib) (hps : blank ps.flatten = false) :
    σ.run lib (pieceEvents false false ps) =
      ((ps.takeWhile blank).map .text ++ .prelude :: (ps.dropWhile blank).map .text,
        { σ with injected := true }) := by
  induction ps with
  | nil => cases hps
  | cons p ps ih =>
    cases hp : blank p with
    | true =>
      have hrest : blank ps.flatten = false := by
        rw [blank, flatten_cons, all_append, ← blank, hp] at hps
        exact hps
      have hnil : ps ≠ [] := by
        rintro rfl
        cases hrest
      rw [pieceEvents_cons false false p hnil]
      simp [run, handle, handleText_blank lib σ hp, ih hrest, takeWhile_cons_of_pos hp,
        dropWhile_cons_of_pos hp]
    | false =>
      have hneg : ¬ blank p := by rw [hp]; exact nofun
      have hinj : injects lib { σ with injected := true } = false := by
        simp [injects]
      rw [takeWhile_cons_of_neg hneg, dropWhile_cons_of_neg hneg]
      by_cases hnil : ps = []
      · subst hnil
        simp [pieceEvents, run, handle, handleText_injects lib h hp]
      · rw [pieceEvents_cons false false p hnil]
        have hplain := @run_texts lib ps { σ with injected := true } fun q _ last => by
          rw [handleText_of_not_injects lib hinj, handleContent_plain]
        simp [run, handle, handleText_injects lib h hp, hplain]

/-- A token that comes before the prelude, outside style sheets and scripts. -/
def Token.quiet : Token → Bool
  | start _ _ => false
  | text raw st sc => blank raw && !st && !sc
  | other _ => true

/-- A part of the output that neither runs nor displays anything: comments and the like,
    white space between elements, and the tags around the content of a document. -/
def Segment.silent : Segment → Bool
  | prelude => true
  | start _ el => isOuter el.tag
  | text t => t.all isAsciiWhitespace
  | content _ => false
  | other _ => true

/-- A token of white space for a browser, if it is a text. -/
def Token.spaces : Token → Bool
  | text raw _ _ => raw.all isAsciiWhitespace
  | _ => true

theorem all_flatten {p : Char → Bool} (ps : List Text) : (ps.flatten.all p) = ps.all (·.all p) := by
  induction ps with
  | nil => rfl
  | cons q ps ih => rw [flatten_cons, all_append, ih, all_cons]

theorem written_map_text (ps : List Text) : written lib (ps.map .text) = ps.flatten := by
  induction ps with
  | nil => rfl
  | cons p ps ih => rw [map_cons, written_cons, ih, flatten_cons, write]

theorem all_silent_map_text (ps : List Text) :
    (ps.map text).all silent = ps.flatten.all isAsciiWhitespace := by
  rw [all_flatten, all_map]
  rfl

theorem all_not_isPrelude_map_text (ps : List Text) : (ps.map text).all (!·.isPrelude) := by
  rw [all_map, all_eq_true]
  exact fun _ _ => rfl

theorem run_quiet (σ : Txn) (cut : Nat → Bool) (pos : Nat) {toks : List Token}
    (h : toks.all Token.quiet) : ∃ segs, σ.run lib (tokensEvents cut pos toks) = (segs, σ) ∧
      written lib segs = rawOf toks ∧ segs.all (!·.isPrelude) ∧
      segs.all silent = toks.all Token.spaces := by
  have htoken {tok : Token} (htok : tok.quiet) (pos : Nat) :
      ∃ segs, σ.run lib (tokenEvents cut pos tok) = (segs, σ) ∧ written lib segs = tok.raw ∧
        segs.all (!·.isPrelude) ∧ segs.all silent = tok.spaces := by
    cases tok with
    | start raw el => cases htok
    | other raw => exact ⟨[.other raw], rfl, append_nil raw, rfl, rfl⟩
    | text raw st sc =>
      rw [Token.quiet, and_eq_true, and_eq_true, not_eq_true', not_eq_true'] at htok
      obtain ⟨⟨hblank, rfl⟩, rfl⟩ := htok
      rw [← flatten_pieces cut pos raw, blank, all_flatten, all_eq_true] at hblank
      refine ⟨(pieces cut pos raw).map .text, run_texts lib fun p hp last =>
        handleText_blank lib σ (hblank p hp) last, ?_, all_not_isPrelude_map_text _, ?_⟩
      · rw [written_map_text, flatten_pieces, Token.raw]
      · rw [all_silent_map_text, flatten_pieces, Token.spaces]
  induction toks generalizing pos with
  | nil => exact ⟨[], rfl, rfl, rfl, rfl⟩
  | cons tok toks ih =>
    rw [all_cons, and_eq_true] at h
    obtain ⟨segs, hrun, hout, hnot, hsilent⟩ := htoken h.1 pos
    obtain ⟨segs', hrun', hout', hnot', hsilent'⟩ := ih (pos + tok.raw.length) h.2
    refine ⟨segs ++ segs', ?_, ?_, ?_, ?_⟩
    · rw [tokensEvents, run_append, hrun, hrun']
    · rw [written_append, hout, hout']
      rfl
    · rw [all_append, hnot, hnot', Bool.and_self]
    · rw [all_append, hsilent, hsilent', all_cons]

/-! ## One prelude -/

theorem countP_handleContent (σ : Txn) (p : Text) (last st sc : Bool) :
    (σ.handleContent lib p last st sc).1.countP isPrelude = 0 := by
  obtain ⟨base, kind, buffer, style, injected⟩ := σ
  cases kind with
  | none => cases st <;> cases sc <;> cases last <;> simp [handleContent, isPrelude]
  | some kind =>
    cases kind <;> cases st <;> cases sc <;> cases last <;>
      simp [handleContent, scriptContent, isPrelude]

theorem countP_handle (σ : Txn) (e : Event) :
    (σ.handle lib e).1.countP isPrelude + ((σ.handle lib e).2.injects lib).toNat =
      (σ.injects lib).toNat := by
  cases e with
  | other raw =>
    exact zero_add _
  | text piece last st sc =>
    rw [handle, handleText]
    dsimp only
    split
    · next h =>
      rw [and_eq_true] at h
      have hafter : injects lib
          { (σ.handleContent lib piece last st sc).2 with injected := true } = false := by
        simp [injects]
      rw [countP_cons, countP_handleContent, hafter, h.1]
      rfl
    · rw [countP_handleContent, injects_handleContent, zero_add]
  | start raw el =>
    have hafter := injects_handleStart lib σ raw el
    rw [handle, hafter, handleStart]
    dsimp only
    split
    · next h =>
      rw [h]
      split <;> rfl
    · next h =>
      rw [not_eq_true] at h
      rw [h]
      rfl

theorem countP_run (σ : Txn) (es : List Event) :
    (σ.run lib es).1.countP isPrelude + ((σ.run lib es).2.injects lib).toNat =
      (σ.injects lib).toNat := by
  induction es generalizing σ with
  | nil => exact zero_add _
  | cons e es ih =>
    rw [← countP_handle lib σ e, ← ih (σ.handle lib e).2, run]
    rw [countP_append, add_assoc]

theorem countP_feed (h : lib.prelude ≠ []) (batches : List (List Event)) :
    (feed lib batches).countP isPrelude = 1 := by
  have hnew : (new lib).injects lib := by
    simp [injects, new, h]
  have hrun := countP_run lib (new lib) batches.flatten
  rw [hnew, toNat_true] at hrun
  rw [feed_eq, countP_append, ← hrun, finish]
  cases injects lib ((new lib).run lib batches.flatten).2 <;> rfl

/-! ## Where the prelude goes -/

/-- What comes before the prelude neither runs nor displays anything. -/
def Before (segs : List Segment) : Prop := (segs.takeWhile (!·.isPrelude)).all silent

theorem before_append {a : List Segment} (ha : a.all (!·.isPrelude)) (b : List Segment) :
    Before (a ++ .prelude :: b) ↔ a.all silent := by
  have htake : (a ++ .prelude :: b).takeWhile (!·.isPrelude) = a := by
    rw [takeWhile_append_of_pos (all_eq_true.1 ha), takeWhile_cons_of_neg (by decide), append_nil]
  rw [Before, htake]

namespace Doc

variable (doc : Doc)

def lead : List Token := doc.tokens.takeWhile Token.quiet

def anchor : Option Token := (doc.tokens.dropWhile Token.quiet).head?

/-- The text at which the prelude is put in, in front of the prelude and behind it. -/
def around (cut : Nat → Bool) : Text × Text :=
  match doc.anchor with
  | some (.text t _ _) =>
    let ps := pieces cut (rawOf doc.lead).length t
    ((ps.takeWhile blank).flatten, (ps.dropWhile blank).flatten)
  | _ => ([], [])

theorem all_lead : doc.lead.all Token.quiet := all_takeWhile

theorem lead_append : doc.lead ++ doc.tokens.dropWhile Token.quiet = doc.tokens :=
  takeWhile_append_dropWhile

theorem plain_of_anchor {t : Text} {st sc : Bool} (h : doc.anchor = some (.text t st sc)) :
    st = false ∧ sc = false ∧ blank t = false := by
  obtain ⟨toks, hrest⟩ := head?_eq_some_iff.1 h
  have hplain := doc.inside doc.lead t st sc toks (by rw [← hrest, lead_append]) fun tok htok => by
    have hq := all_eq_true.1 doc.all_lead tok htok
    cases tok with
    | start raw el => cases hq
    | text raw st sc | other raw => rfl
  obtain ⟨rfl, rfl⟩ := hplain
  have hneg := head?_dropWhile_not Token.quiet doc.tokens
  rw [hrest] at hneg
  simpa [Token.quiet] using hneg

end Doc

theorem tokensEvents_append (cut : Nat → Bool) (pos : Nat) (toks toks' : List Token) :
    tokensEvents cut pos (toks ++ toks') =
      tokensEvents cut pos toks ++ tokensEvents cut (pos + (rawOf toks).length) toks' := by
  induction toks generalizing pos with
  | nil => rfl
  | cons tok toks ih =>
    have hraw : rawOf (tok :: toks) = tok.raw ++ rawOf toks := flatMap_cons
    rw [cons_append, tokensEvents, ih, tokensEvents, append_assoc, hraw, length_append, add_assoc]

def outputFrom (σ : Txn) (cut : Nat → Bool) (pos : Nat) (toks : List Token) : List Segment :=
  (σ.run lib (tokensEvents cut pos toks)).1 ++ (σ.run lib (tokensEvents cut pos toks)).2.finish lib

theorem outputFrom_append (σ : Txn) (cut : Nat → Bool) (pos : Nat) (toks toks' : List Token) :
    outputFrom lib σ cut pos (toks ++ toks') = (σ.run lib (tokensEvents cut pos toks)).1 ++
      outputFrom lib (σ.run lib (tokensEvents cut pos toks)).2 cut (pos + (rawOf toks).length) toks' := by
  rw [outputFrom, tokensEvents_append, run_append, outputFrom, append_assoc]

theorem outputFrom_cons (σ : Txn) (cut : Nat → Bool) (pos : Nat) (tok : Token) (toks : List Token) :
    outputFrom lib σ cut pos (tok :: toks) = (σ.run lib (tokenEvents cut pos tok)).1 ++
      outputFrom lib (σ.run lib (tokenEvents cut pos tok)).2 cut (pos + tok.raw.length) toks := by
  rw [outputFrom, tokensEvents, run_append, outputFrom, append_assoc]

def output (doc : Doc) (cut : Nat → Bool) : List Segment :=
  outputFrom lib (new lib) cut 0 doc.tokens

theorem exists_rest (h : σ.injects lib = false) (toks : List Token) :
    ∃ y, ∀ cut pos, written lib (outputFrom lib σ cut pos toks) = y := by
  refine ⟨written lib (σ.run lib (tokensEvents (fun _ => false) 0 toks)).1, fun cut pos => ?_⟩
  obtain ⟨hout, -, hinj⟩ := run_tokens lib h cut (fun _ => false) pos 0 toks
  rw [outputFrom, finish, hinj, written_append, hout]
  exact append_nil _

theorem exists_handleStart (h : σ.injects lib) (raw : Text) (el : Element) :
    ∃ c d, (σ.handleStart lib raw el).1 = c ++ .prelude :: d ∧ c.all (!·.isPrelude) ∧
      c.all silent := by
  rw [handleStart]
  dsimp only
  rw [if_pos h]
  split
  · next houter =>
    refine ⟨[_], [], rfl, rfl, ?_⟩
    rw [all_cons, all_nil, Bool.and_true, silent, houter]
  · exact ⟨[], [_], rfl, rfl, rfl⟩

/-- From the place of the prelude on, the output does not depend on the chunks but for where the
    prelude is put into a text. -/
theorem exists_anchored (hnew : (new lib).injects lib) (doc : Doc) (pos : Nat)
    (hpos : pos = (rawOf doc.lead).length) : ∃ x y, ∀ cut, ∃ a b,
    outputFrom lib (new lib) cut pos (doc.tokens.dropWhile Token.quiet) = a ++ .prelude :: b ∧
      a.all (!·.isPrelude) ∧ a.all silent = (doc.around cut).1.all isAsciiWhitespace ∧
      written lib a = x ++ (doc.around cut).1 ∧ written lib b = (doc.around cut).2 ++ y := by
  cases hanchor : doc.anchor with
  | none =>
    -- The document ends before there is a place for the prelude.
    refine ⟨[], [], fun cut => ⟨[], [], ?_, rfl, ?_⟩⟩
    · rw [head?_eq_none_iff.1 hanchor, outputFrom, tokensEvents, run, finish, hnew]
      rfl
    · rw [Doc.around, hanchor]
      exact ⟨rfl, rfl, rfl⟩
  | some tok =>
    obtain ⟨toks, hrest⟩ := head?_eq_some_iff.1 hanchor
    cases tok with
    | other raw =>
      have hneg := head?_dropWhile_not Token.quiet doc.tokens
      rw [hrest] at hneg
      cases hneg
    | start raw el =>
      obtain ⟨y, hy⟩ := exists_rest lib (injects_handleStart lib (new lib) raw el) toks
      obtain ⟨c, d, hstart, hnot, hsilent⟩ := exists_handleStart lib hnew raw el
      refine ⟨written lib c, written lib d ++ y, fun cut => ?_⟩
      have hrun : (new lib).run lib (tokenEvents cut pos (.start raw el)) =
          (c ++ .prelude :: d, ((new lib).handleStart lib raw el).2) := by
        rw [← hstart]
        exact congrArg (·, _) (append_nil _)
      rw [Doc.around, hanchor, hrest, outputFrom_cons, hrun, append_assoc, cons_append]
      exact ⟨c, _, rfl, hnot, hsilent, (append_nil _).symm, by rw [written_append, hy]; rfl⟩
    | text t st sc =>
      obtain ⟨rfl, rfl, hblank⟩ := doc.plain_of_anchor hanchor
      have hinj : injects lib { new lib with injected := true } = false := by
        simp [injects]
      obtain ⟨y, hy⟩ := exists_rest lib hinj toks
      refine ⟨[], y, fun cut => ?_⟩
      have hpieces := @run_leading lib (pieces cut pos t) (new lib) hnew
        (by rw [flatten_pieces, hblank])
      rw [Doc.around, hanchor, hrest, outputFrom_cons, tokenEvents, hpieces, ← hpos, append_assoc,
        cons_append]
      refine ⟨_, _, rfl, all_not_isPrelude_map_text _, all_silent_map_text _,
        written_map_text lib _, ?_⟩
      rw [written_append, hy, written_map_text]

theorem exists_output (h : lib.prelude ≠ []) (doc : Doc) : ∃ x y, ∀ cut, ∃ a b,
    output lib doc cut = a ++ .prelude :: b ∧ a.all (!·.isPrelude) ∧ a.all silent =
        (doc.lead.all Token.spaces && (doc.around cut).1.all isAsciiWhitespace) ∧
      written lib a = x ++ (doc.around cut).1 ∧ written lib b = (doc.around cut).2 ++ y := by
  have hnew : (new lib).injects lib := by
    simp [injects, new, h]
  obtain ⟨x, y, hrest⟩ := exists_anchored lib hnew doc _ rfl
  refine ⟨rawOf doc.lead ++ x, y, fun cut => ?_⟩
  -- The tokens before it come out as they are.
  obtain ⟨segs, hrun, hwritten, hnot, hsilent⟩ := run_quiet lib (new lib) cut 0 doc.all_lead
  obtain ⟨a, b, hout, hnot', hsilent', ha, hb⟩ := hrest cut
  refine ⟨segs ++ a, b, ?_, ?_, ?_, ?_, hb⟩
  · rw [output]
    nth_rewrite 1 [← doc.lead_append]
    rw [outputFrom_append, hrun, zero_add, hout, append_assoc]
  · rw [all_append, hnot, hnot', Bool.and_self]
  · rw [all_append, hsilent, hsilent']
  · rw [written_append, hwritten, ha, append_assoc]

/-! ## Chunks -/

theorem boundary_iff {chunks : List Text} {n : Nat} : boundary chunks n ↔
    ∃ k ≤ chunks.length, (chunks.take k).flatten.length = n := by
  simp only [boundary, any_eq_true, mem_range, Nat.lt_succ_iff, beq_iff_eq]

variable {sc st : Bool}

theorem around_whole (doc : Doc) (h : doc.anchor = some (.text t st sc)) :
    doc.around (boundary [rawOf doc.tokens]) = ([], t) := by
  obtain ⟨toks, hrest⟩ := head?_eq_some_iff.1 h
  have hlen : (rawOf doc.tokens).length = (rawOf doc.lead).length + t.length + (rawOf toks).length := by
    rw [← doc.lead_append, hrest, rawOf, flatMap_append, flatMap_cons, length_append,
      length_append, ← add_assoc]
    rfl
  have hwhole : pieces (boundary [rawOf doc.tokens]) (rawOf doc.lead).length t = [t] := by
    refine pieces_eq_singleton fun k hk hlt => ?_
    rw [← not_eq_true, boundary_iff]
    rintro ⟨j, hj, hn⟩
    rcases j with - | j
    · simp at hn
      omega
    · simp at hn
      omega
  have hneg : ¬ blank t := by
    rw [(doc.plain_of_anchor h).2.2]
    exact nofun
  rw [Doc.around, h]
  dsimp only
  rw [hwhole, takeWhile_cons_of_neg hneg, dropWhile_cons_of_neg hneg, flatten_nil,
    flatten_singleton]

theorem around_append (doc : Doc) (cut : Nat → Bool) (h : doc.anchor = some (.text t st sc)) :
    (doc.around cut).1 ++ (doc.around cut).2 = t ∧ blank (doc.around cut).1 := by
  rw [Doc.around, h]
  refine ⟨?_, ?_⟩
  · rw [← flatten_append, takeWhile_append_dropWhile, flatten_pieces]
  · rw [blank, all_flatten]
    exact all_takeWhile

theorem exists_chunks (doc : Doc) {w r : Text}
    (h : doc.anchor = some (.text (w ++ r) st sc)) (hw : blank w) :
    ∃ chunks : List Text, chunks.flatten = rawOf doc.tokens ∧
      doc.around (boundary chunks) = (w, r) := by
  obtain ⟨toks, hrest⟩ := head?_eq_some_iff.1 h
  have hraw : rawOf doc.tokens = rawOf doc.lead ++ w ++ (r ++ rawOf toks) := by
    rw [← doc.lead_append, hrest, rawOf, flatMap_append, flatMap_cons, Token.raw,
      append_assoc, append_assoc]
    rfl
  have hr : blank r = false := by
    have hblank := (doc.plain_of_anchor h).2.2
    rw [blank, all_append, ← blank, hw] at hblank
    exact hblank
  have hrneg : ¬ blank r := by
    rw [hr]
    exact nofun
  have hrnil : r ≠ [] := by
    rintro rfl
    cases hr
  by_cases hwnil : w = []
  · -- Without white space, the document in one chunk will do.
    subst hwnil
    exact ⟨[rawOf doc.tokens], flatten_singleton, around_whole doc h⟩
  refine ⟨[rawOf doc.lead ++ w, r ++ rawOf toks], by rw [hraw]; simp, ?_⟩
  have hpair : pieces (boundary [rawOf doc.lead ++ w, r ++ rawOf toks]) (rawOf doc.lead).length
      (w ++ r) = [w, r] := by
    refine pieces_eq_pair hwnil hrnil fun k hk hlt => ?_
    rw [length_append] at hlt
    rw [boundary_iff]
    constructor
    · rintro ⟨j, hj, hn⟩
      rcases j with - | - | j
      · simp at hn
        omega
      · simp at hn
        omega
      · simp at hn
        omega
    · rintro rfl
      exact ⟨1, by simp, by simp⟩
  rw [Doc.around, h]
  dsimp only
  rw [hpair, takeWhile_cons_of_pos hw, takeWhile_cons_of_neg hrneg,
    dropWhile_cons_of_pos hw, dropWhile_cons_of_neg hrneg]
  simp

/-- The output is the same for all chunks, and has one prelude, before everything that can
    run or display. -/
def Streams (doc : Doc) : Prop :=
  ∀ (chunks : List Text) (batches : List (List Event)), chunks.flatten = rawOf doc.tokens →
    batches.flatten = doc.events chunks →
    written lib (feed lib batches) = written lib (feed lib [doc.events [rawOf doc.tokens]]) ∧
      (feed lib batches).countP isPrelude = 1 ∧ Before (feed lib batches)

/-- The transformer streams exactly the documents in which the texts before the first
    element and the first text that is not blank are white space for a browser too, and
    white space that this text begins with, if it comes before all elements, may as well
    stand on either side of the prelude. -/
theorem streams_iff (h : lib.prelude ≠ []) (doc : Doc) : Streams lib doc ↔
    doc.lead.all Token.spaces ∧
      ∀ w r st sc, doc.anchor = some (.text (w ++ r) st sc) → blank w →
        w.all isAsciiWhitespace ∧ w ++ lib.prelude = lib.prelude ++ w := by
  obtain ⟨x, y, hshape⟩ := exists_output lib h doc
  have hfeed {chunks : List Text} {batches : List (List Event)}
      (hb : batches.flatten = doc.events chunks) :
      feed lib batches = output lib doc (boundary chunks) := by
    rw [feed_eq, hb]
    rfl
  have hwritten (cut : Nat → Bool) : written lib (output lib doc cut) =
      x ++ ((doc.around cut).1 ++ lib.prelude ++ (doc.around cut).2) ++ y := by
    obtain ⟨a, b, hout, -, -, ha, hb⟩ := hshape cut
    rw [hout, written_append, written_cons, ha, hb, write]
    simp
  have hbefore (cut : Nat → Bool) : Before (output lib doc cut) ↔
      doc.lead.all Token.spaces ∧ (doc.around cut).1.all isAsciiWhitespace := by
    obtain ⟨a, b, hout, hnot, hsilent, -⟩ := hshape cut
    rw [hout, before_append hnot, hsilent, and_eq_true]
  have hwhole : feed lib [doc.events [rawOf doc.tokens]] =
      output lib doc (boundary [rawOf doc.tokens]) := hfeed flatten_singleton
  rw [Streams, hwhole, hwritten]
  constructor
  · intro hstreams
    have hall (chunks : List Text) (hc : chunks.flatten = rawOf doc.tokens) :=
      hstreams chunks [doc.events chunks] hc flatten_singleton
    refine ⟨?_, fun w r st sc hanchor hw => ?_⟩
    · obtain ⟨-, -, hb⟩ := hall [rawOf doc.tokens] flatten_singleton
      rw [hwhole, hbefore] at hb
      exact hb.1
    obtain ⟨chunks, hc, haround⟩ := exists_chunks doc hanchor hw
    obtain ⟨hout, -, hb⟩ := hall chunks hc
    rw [hfeed flatten_singleton, hbefore, haround] at hb
    rw [hfeed flatten_singleton, hwritten, haround, around_whole doc hanchor] at hout
    refine ⟨hb.2, ?_⟩
    have hcancel := append_cancel_left (append_cancel_right hout)
    rw [← append_assoc] at hcancel
    exact append_cancel_right hcancel
  · rintro ⟨hspaces, hanchored⟩ chunks batches hc hb
    rw [hfeed hb, hwritten, hbefore]
    have hcount := countP_feed lib h batches
    rw [hfeed hb] at hcount
    -- The text around the prelude, if it is put into a text.
    have haround : (doc.around (boundary chunks)).1 ++ lib.prelude ++ (doc.around (boundary chunks)).2 =
          (doc.around (boundary [rawOf doc.tokens])).1 ++ lib.prelude ++
            (doc.around (boundary [rawOf doc.tokens])).2 ∧
        (doc.around (boundary chunks)).1.all isAsciiWhitespace := by
      by_cases htext : ∃ t st sc, doc.anchor = some (.text t st sc)
      · obtain ⟨t, st, sc, hanchor⟩ := htext
        obtain ⟨ht, hblank⟩ := around_append doc (boundary chunks) hanchor
        rw [around_whole doc hanchor, nil_append, ← ht]
        rw [← ht] at hanchor
        obtain ⟨hascii, hcomm⟩ := hanchored _ _ st sc hanchor hblank
        exact ⟨by rw [hcomm, append_assoc], hascii⟩
      have hnone (cut : Nat → Bool) : doc.around cut = ([], []) := by
        rw [Doc.around]
        split
        · next t st sc hanchor => exact absurd ⟨t, st, sc, hanchor⟩ htext
        · rfl
      rw [hnone, hnone]
      exact ⟨rfl, rfl⟩
    exact ⟨by rw [haround.1], hcount, hspaces, haround.2⟩

/-- A prelude that is easy to see, and nothing else to rewrite. -/
def markLib : Lib where
  deps := ⟨fun s _ => .ok s, fun css _ _ _ => some css, fun csp _ => csp, fun _ => []⟩
  sdeps := ⟨fun s _ => .ok s, fun _ _ _ => none, fun _ _ _ => none⟩
  opts := ⟨"https://t.test/", "https://p.test"⟩
  prelude := "<meta>"
  markup := fun raw _ => raw

def paragraph : Doc where
  tokens := [.start "<p>" ⟨"p", []⟩, .text " a" false false]
  inside := fun pre raw st sc post h hpre => by
    cases pre with
    | nil => cases h
    | cons tok pre => exact absurd (hpre tok mem_cons_self) (by rw [← (List.cons.inj h).1]; decide)

/-- It comes out the same in all chunks. -/
theorem streams_paragraph : markLib.prelude ≠ [] ∧ Streams markLib paragraph := by
  refine ⟨cons_ne_nil _ _, (streams_iff markLib (cons_ne_nil _ _) paragraph).2 ⟨rfl, ?_⟩⟩
  intro w r st sc h
  cases h

def bareText : Doc where
  tokens := [.text " a" false false]
  inside := fun pre raw st sc post h _ => by
    cases pre with
    | nil =>
      cases h
      exact ⟨rfl, rfl⟩
    | cons tok pre =>
      have hlen := congrArg List.length h
      simp at hlen

/-- The prelude comes before the white space or after it, as the chunks are. -/
theorem prelude_after_space : written markLib (feed markLib [bareText.events [" a"]]) = "<meta> a" ∧
      written markLib (feed markLib [bareText.events [" ", "a"]]) = " <meta>a" ∧
      ¬ Streams markLib bareText := by
  have hwhole : written markLib (feed markLib [bareText.events [" a"]]) = "<meta> a" := by decide
  have hcut : written markLib (feed markLib [bareText.events [" ", "a"]]) = " <meta>a" := by decide
  refine ⟨hwhole, hcut, fun h => ?_⟩
  obtain ⟨hsame, -⟩ := h [" ", "a"] _ rfl flatten_singleton
  exact absurd hsame (by decide)

end ZeroProxy.Htmltx.Stream
