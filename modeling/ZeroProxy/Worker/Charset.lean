import ZeroProxy.Html.CharRef
import ZeroProxy.Worker.Document

/-!
# The encoding of a document

The worker takes the encoding of a document from its `Content-Type`, and else from a `<meta>` tag
in its first bytes. It streams a document that it takes for UTF-8, and buffers any other; to know
which it is, it looks at the first chunk of the stream only.
-/

namespace ZeroProxy.Worker.Charset

open Bytes Http List Text

/-! ## Where an encoding is named -/

/-- The character of a byte in windows-1252, which `latin1` is a label of. -/
def windows1252 (b : UInt8) : Char := Char.ofNat ((Html.windows1252 b.toNat).getD b.toNat)

/-- `["']`. -/
def isQuote (c : Char) : Bool := c == '"' || c == '\''

/-- `[a-zA-Z0-9._-]`. -/
def isLabelChar (c : Char) : Bool := isAsciiAlnum c || c == '.' || c == '_' || c == '-'

/-- What follows `p`, in any case, at the head of `s`. -/
def stripPrefixCI (p s : Text) : Option Text :=
  if startsWithCI s p then some (s.drop p.length) else none

/-- What follows `<name>\s*=` at the head of `s`. -/
def afterSign (name s : Text) : Option Text :=
  match (stripPrefixCI name s).map (·.dropWhile isJsWhitespace) with
  | some ('=' :: s) => some s
  | _ => none

/-- What follows `<name>\s*=\s*` at the head of `s`. -/
def afterName (name s : Text) : Option Text :=
  (afterSign name s).map (·.dropWhile isJsWhitespace)

/-- `["']?`. -/
def dropQuote : Text → Text
  | c :: s => if isQuote c then s else c :: s
  | [] => []

/-- The characters in `p` at the head of `s`, of which there is one at least. -/
def takeSome (p : Char → Bool) (s : Text) : Option Text :=
  if (s.takeWhile p).isEmpty then none else some (s.takeWhile p)

/-- The first match of `m` in a text. -/
def search (m : Text → Option Text) : Text → Option Text
  | [] => none
  | c :: s => (m (c :: s)).or (search m s)

/-- The first match of `m` in a text at the beginning of a word; `inWord` says that a word is
    already begun. -/
def searchAtWord (m : Text → Option Text) (inWord : Bool) : Text → Option Text
  | [] => none
  | c :: s => (if inWord then none else m (c :: s)).or (searchAtWord m (isWordChar c) s)

def extractCharsetFromContentType (contentType : Text) : Text :=
  (search (fun s => (afterName "charset" s).bind fun s =>
    takeSome (fun c => !(isQuote c || c == ';' || isJsWhitespace c)) (dropQuote s))
    contentType).getD []

/-- `/\bcharset\s*=\s*["']?\s*([a-zA-Z0-9._-]+)/i`. -/
def directCharset (tag : Text) : Option Text :=
  searchAtWord (fun s => (afterName "charset" s).bind fun s =>
    takeSome isLabelChar ((dropQuote s).dropWhile isJsWhitespace)) false tag

/-- `/\bcontent\s*=\s*["']([^"']*charset\s*=\s*[^"']+)["']/i`. -/
def contentValue (tag : Text) : Option Text :=
  searchAtWord (fun s => match afterName "content" s with
    | some (q :: s) =>
      let v := s.takeWhile (!isQuote ·)
      if isQuote q && (s.dropWhile (!isQuote ·)).head?.isSome &&
          (search (fun s => (afterSign "charset" s).filter (!·.isEmpty)) v).isSome then some v
      else none
    | _ => none) false tag

/-- `/charset\s*=\s*([a-zA-Z0-9._-]+)/i`. -/
def contentCharset (content : Text) : Option Text :=
  search (fun s => (afterName "charset" s).bind (takeSome isLabelChar)) content

/-- The encoding that a tag names. -/
def tagCharset (tag : Text) : Option Text :=
  (directCharset tag).or ((contentValue tag).bind contentCharset)

/-- `/<meta\b/i`, at the head of a text. -/
def startsMeta (s : Text) : Bool := (stripPrefixCI "<meta" s).any fun s => !s.head?.any isWordChar

/-- The matches of `/<meta\b[^>]*>/gi`; in a tag, what was read of it, the other way round. -/
def metaTags : Option Text → Text → List Text
  | _, [] => []
  | none, c :: s => if startsMeta (c :: s) then metaTags (some [c]) s else metaTags none s
  | some tag, c :: s =>
    if c == '>' then (c :: tag).reverse :: metaTags none s else metaTags (some (c :: tag)) s

def extractCharsetFromHTMLBytes (bytes : Http.Bytes) : Text :=
  ((metaTags none ((bytes.take 2048).map windows1252)).findSome? tagCharset).getD []

/-! ## A name in the first bytes -/

theorem metaTags_eq_nil {s : Text} (h : '>' ∉ s) (tag : Option Text) : metaTags tag s = [] := by
  induction s generalizing tag with
  | nil => cases tag <;> rfl
  | cons c s ih =>
    rw [mem_cons, not_or] at h
    cases tag with
    | none =>
      rw [metaTags]
      split
      · exact ih h.2 _
      · exact ih h.2 _
    | some tag => rw [metaTags, if_neg (by rw [beq_iff_eq]; exact fun hc => h.1 hc.symm), ih h.2]

theorem stripPrefixCI_cons_cons (p c : Char) (ps s : Text) : stripPrefixCI (p :: ps) (c :: s) =
      if c.toLower == p.toLower then stripPrefixCI ps s else none := by
  rw [stripPrefixCI, stripPrefixCI, cons_startsWithCI_cons]
  cases c.toLower == p.toLower <;> rfl

theorem stripPrefixCI_append {p s : Text} (hp : ∀ d ∈ p, d.toLower ≠ '>') (h : '>' ∈ s) (t : Text) :
    stripPrefixCI p (s ++ t) = (stripPrefixCI p s).map (· ++ t) ∧
      ∀ r, stripPrefixCI p s = some r → '>' ∈ r := by
  induction p generalizing s with
  | nil =>
    have hnil (u : Text) : stripPrefixCI [] u = some u := by
      rw [stripPrefixCI, startsWithCI_nil]
      rfl
    rw [hnil, hnil]
    exact ⟨rfl, fun r hr => Option.some.inj hr ▸ h⟩
  | cons d p ih =>
    cases s with
    | nil => cases h
    | cons c s =>
      rw [cons_append, stripPrefixCI_cons_cons, stripPrefixCI_cons_cons]
      split
      · next hc =>
        -- A character that was matched is not the `>`, which is therefore further on.
        refine ih (fun e he => hp e (.tail _ he)) ?_
        rcases mem_cons.1 h with rfl | h
        · exact absurd (beq_iff_eq.1 hc).symm (hp d (.head _))
        · exact h
      · exact ⟨rfl, nofun⟩

theorem startsMeta_append {s : Text} (h : '>' ∈ s) (t : Text) :
    startsMeta (s ++ t) = startsMeta s := by
  have hmeta : ∀ d ∈ "<meta".toList, d.toLower ≠ '>' := by
    have hall : "<meta".toList.all (fun d => d.toLower != '>') := by decide
    simpa only [all_eq_true, bne_iff_ne] using hall
  obtain ⟨happend, hmem⟩ := @stripPrefixCI_append "<meta" s hmeta h t
  rw [startsMeta, startsMeta, happend]
  cases hr : stripPrefixCI "<meta" s with
  | none => rfl
  | some r =>
    obtain ⟨c, r, rfl⟩ := exists_cons_of_ne_nil (ne_nil_of_mem (hmem r hr))
    rfl

theorem metaTags_append (tag : Option Text) (s t : Text) :
    metaTags tag s <+: metaTags tag (s ++ t) := by
  induction s generalizing tag with
  | nil => cases tag <;> exact nil_prefix
  | cons c s ih =>
    cases tag with
    | none =>
      by_cases hmem : '>' ∈ c :: s
      · rw [cons_append, metaTags, metaTags, ← cons_append, startsMeta_append hmem]
        split
        · exact ih _
        · exact ih _
      · rw [metaTags_eq_nil hmem]
        exact nil_prefix
    | some tag =>
      rw [cons_append, metaTags, metaTags]
      split
      · exact (prefix_cons_inj _).2 (ih none)
      · exact ih _

theorem extractCharsetFromHTMLBytes_append (a b : Http.Bytes) : extractCharsetFromHTMLBytes a = [] ∨
      extractCharsetFromHTMLBytes (a ++ b) = extractCharsetFromHTMLBytes a := by
  obtain ⟨rest, hrest⟩ : ∃ rest, (a ++ b).take 2048 = a.take 2048 ++ rest :=
    ⟨_, take_append⟩
  obtain ⟨more, hmore⟩ := metaTags_append none ((a.take 2048).map windows1252)
    (rest.map windows1252)
  rw [extractCharsetFromHTMLBytes, extractCharsetFromHTMLBytes, hrest, map_append, ← hmore,
    findSome?_append]
  cases (metaTags none ((a.take 2048).map windows1252)).findSome? tagCharset with
  | none => exact .inl rfl
  | some label => exact .inr rfl

theorem extractCharsetFromHTMLBytes_singleton (b : UInt8) :
    extractCharsetFromHTMLBytes [b] = [] := by
  have htags (c : Char) : metaTags none [c] = [] := by
    rw [metaTags]
    split <;> rfl
  rw [extractCharsetFromHTMLBytes, take_of_length_le (Nat.succ_le_succ (Nat.zero_le _)), map_cons,
    map_nil, htags]
  rfl

/-! ## What the transformer gets -/

def byteOrderMark : Http.Bytes := [0xef, 0xbb, 0xbf]

/-- `new TextDecoder('utf-8').decode`. -/
def textDecode (bytes : Http.Bytes) : Text :=
  fromUtf8Lossy (if byteOrderMark.isPrefixOf bytes then bytes.drop 3 else bytes)

/-- The transformer, in a worker that finds the name of an encoding and decodes UTF-8 as above. -/
def withDecoders (t : Transformer) : Transformer :=
  { t with
    headerCharset := extractCharsetFromContentType
    metaCharset := extractCharsetFromHTMLBytes
    decodeUtf8 := textDecode }

/-- The encoding of a document, and the text that the transformer gets. -/
structure Handed where
  charset : Text
  text : Text
  deriving DecidableEq

/-- The `charset` that `decodeTextBytes` returns. -/
def decodedCharset (t : Transformer) (bytes : Http.Bytes) (contentType : Text) : Text :=
  let header := t.headerCharset contentType
  let charset := if header.isEmpty then t.metaCharset bytes else header
  if isUtf8CharsetLabel charset then "utf-8"
  else match t.decodeAs (jsLower (jsTrim charset)) bytes with
    | some _ => jsTrim charset
    | none => "utf-8"

/-- A document that is buffered. -/
def whole (t : Transformer) (contentType : Text) (bytes : Http.Bytes) : Handed :=
  ⟨decodedCharset t bytes contentType, documentText t bytes contentType⟩

/-- A document that is streamed: `HtmlTxn` reads UTF-8. -/
def piecewise (bytes : Http.Bytes) : Handed := ⟨"utf-8", fromUtf8Lossy bytes⟩

/-- What `transformDocumentResponse` makes of the bytes of a document, unless it loses them. -/
def handed (env : Env) (t : Transformer) (r : Response) (targetUrl : Text) : Option Handed :=
  match attemptStream env t r targetUrl with
  | .streamed _ => r.body.readAll.map piecewise
  | .buffer prefetched locked =>
    (bufferedBytes r prefetched locked).map
      (whole t ((r.headers.get "Content-Type").getD []))

/-- A document without its body, of a type that names no encoding. -/
structure Page where
  status : Nat
  statusText : Text
  headers : Headers
  /-- It is a response with a body. -/
  constructible : 200 ≤ status ∧ status ≤ 599 ∧ statusText.all isReasonChar ∧
    isNullBodyStatus status = false
  /-- It is a document that is transformed. -/
  html : ¬ Passes ⟨status, statusText, headers, .null⟩
  /-- Its type names no encoding. -/
  unlabelled : extractCharsetFromContentType ((headers.get "Content-Type").getD []) = []

/-- The document with a body in chunks. -/
def Page.cut (p : Page) (chunks : List Http.Bytes) : Response :=
  ⟨p.status, p.statusText, p.headers, .network ⟨chunks, false⟩ .fresh⟩

/-- Nothing prevents that the document is streamed: the kernel streams it, the bundle has
    `HtmlTxn`, and it does not come from another host. -/
def Page.attempts (p : Page) (t : Transformer) (targetUrl : Text) : Bool :=
  let finalUrl := (p.headers.get "X-ZP-Final-URL").getD []
  p.headers.get "X-ZP-Stream" == some "1".toList && t.ready && t.hasTxn &&
    !(!finalUrl.isEmpty && !targetUrl.isEmpty && t.hostMismatch targetUrl finalUrl)

def Page.streams (p : Page) (t : Transformer) (targetUrl : Text) : Bool :=
  p.attempts t targetUrl &&
    (t.newTxn targetUrl (t.prelude (p.headers.get "Content-Security-Policy"))).isSome

/-- The chunks are a body, cut somehow. -/
def Cuts (bytes : Http.Bytes) (chunks : List Http.Bytes) : Prop :=
  chunks.flatten = bytes ∧ ∀ c ∈ chunks, c ≠ []

section Chunks

variable {env : Env} {t : Transformer} {p : Page} {targetUrl : Text}

theorem streamDocumentResponse_of_txn {r : Response} {txn : t.Txn}
    (htxn : t.newTxn targetUrl (t.prelude (r.headers.get "Content-Security-Policy")) = some txn)
    (hr : 200 ≤ r.status ∧ r.status ≤ 599 ∧ r.statusText.all isReasonChar ∧
      isNullBodyStatus r.status = false) (stream : Stream) :
    ∃ out, streamDocumentResponse env t r targetUrl stream = some (some out) := by
  obtain ⟨hlow, hhigh, htext, hnull⟩ := hr
  rw [streamDocumentResponse, htxn]
  dsimp only
  rw [newResponse, if_pos ⟨hlow, hhigh, htext, fun h => by rw [hnull] at h; cases h⟩]
  exact ⟨_, rfl⟩

theorem streamDocumentResponse_of_no_txn {r : Response}
    (htxn : t.newTxn targetUrl (t.prelude (r.headers.get "Content-Security-Policy")) = none)
    (stream : Stream) : streamDocumentResponse env t r targetUrl stream = some none := by
  rw [streamDocumentResponse, htxn]

theorem attemptStream_cut (chunks : List Http.Bytes) :
    attemptStream env (withDecoders t) (p.cut chunks) targetUrl =
      if p.attempts t targetUrl then replay env (withDecoders t) (p.cut chunks) targetUrl ⟨chunks, false⟩
      else .buffer none false := by
  have hlabel : (withDecoders t).headerCharset
      (((p.cut chunks).headers.get "Content-Type").getD []) = [] := p.unlabelled
  have hutf8 : isUtf8CharsetLabel [] := rfl
  rw [attemptStream, hlabel, hutf8, Bool.and_true]
  rfl

variable {chunks : List Http.Bytes}

theorem handed_of_buffer {prefetched : Option Http.Bytes} {locked : Bool}
    (h : attemptStream env (withDecoders t) (p.cut chunks) targetUrl = .buffer prefetched locked)
    (hbytes : bufferedBytes (p.cut chunks) prefetched locked = some chunks.flatten) :
    handed env (withDecoders t) (p.cut chunks) targetUrl =
      some (whole (withDecoders t) ((p.headers.get "Content-Type").getD []) chunks.flatten) := by
  rw [handed, h]
  dsimp only
  rw [hbytes]
  rfl

theorem handed_cut (chunks : List Http.Bytes) :
    handed env (withDecoders t) (p.cut chunks) targetUrl =
      some (if p.streams t targetUrl &&
          isUtf8CharsetLabel (extractCharsetFromHTMLBytes (chunks.headD [])) then
        piecewise chunks.flatten
      else whole (withDecoders t) ((p.headers.get "Content-Type").getD []) chunks.flatten) := by
  have hread : (Stream.mk chunks false).readAll = some chunks.flatten := rfl
  have hattempt := @attemptStream_cut env t p targetUrl chunks
  rw [Page.streams]
  cases ha : p.attempts t targetUrl with
  | false =>
    rw [ha] at hattempt
    exact handed_of_buffer hattempt hread
  | true =>
    rw [ha, replay, Bool.and_false] at hattempt
    change _ = if !isUtf8CharsetLabel (extractCharsetFromHTMLBytes (chunks.headD [])) then _ else _
      at hattempt
    cases hlabel : isUtf8CharsetLabel (extractCharsetFromHTMLBytes (chunks.headD [])) with
    | false =>
      rw [hlabel] at hattempt
      rw [Bool.and_false]
      exact handed_of_buffer hattempt hread
    | true =>
      rw [hlabel, Bool.not_true] at hattempt
      cases htxn : t.newTxn targetUrl
        (t.prelude (p.headers.get "Content-Security-Policy")) with
      | none =>
        rw [@streamDocumentResponse_of_no_txn env (withDecoders t) targetUrl (p.cut chunks) htxn] at hattempt
        exact handed_of_buffer hattempt hread
      | some txn =>
        obtain ⟨out, hout⟩ := @streamDocumentResponse_of_txn env (withDecoders t) targetUrl (p.cut chunks)
          txn htxn p.constructible ⟨chunks, false⟩
        rw [hout] at hattempt
        rw [handed, hattempt]
        rfl

theorem textDecode_eq_iff (bytes : Http.Bytes) :
    textDecode bytes = fromUtf8Lossy bytes ↔ byteOrderMark.isPrefixOf bytes = false := by
  rw [textDecode]
  cases hmark : byteOrderMark.isPrefixOf bytes with
  | false => exact iff_of_true rfl rfl
  | true =>
    obtain ⟨rest, rfl⟩ := isPrefixOf_iff_prefix.1 hmark
    refine iff_of_false (fun h => ?_) (by decide)
    exact cons_ne_self _ _ h.symm

theorem jsTrim_ne_of_not_utf8 {label : Text} (h : isUtf8CharsetLabel label = false) :
    jsTrim label ≠ "utf-8" := by
  intro heq
  rw [isUtf8CharsetLabel, heq, Bool.or_eq_false_iff] at h
  exact absurd h.2 (by decide)

variable {bytes : Http.Bytes}

theorem whole_eq_piecewise_iff
    (hlabel : isUtf8CharsetLabel (extractCharsetFromHTMLBytes bytes) = false) :
    whole (withDecoders t) ((p.headers.get "Content-Type").getD []) bytes = piecewise bytes ↔
      t.decodeAs (jsLower (jsTrim (extractCharsetFromHTMLBytes bytes))) bytes = none ∧
        byteOrderMark.isPrefixOf bytes = false := by
  have hheader : (withDecoders t).headerCharset
      ((p.headers.get "Content-Type").getD []) = [] := p.unlabelled
  have hmeta : (withDecoders t).metaCharset bytes = extractCharsetFromHTMLBytes bytes := rfl
  have hdecode : (withDecoders t).decodeAs = t.decodeAs := rfl
  have hutf8 : (withDecoders t).decodeUtf8 bytes = textDecode bytes := rfl
  rw [whole, piecewise, decodedCharset, documentText, decodeTextBytes, hheader, hmeta, hdecode, hutf8]
  simp only [isEmpty_nil, if_true, hlabel, Handed.mk.injEq]
  cases t.decodeAs (jsLower (jsTrim (extractCharsetFromHTMLBytes bytes))) bytes with
  | some text =>
    refine iff_of_false (fun h => jsTrim_ne_of_not_utf8 hlabel h.1) (fun h => ?_)
    cases h.1
  | none =>
    rw [← textDecode_eq_iff]
    exact and_congr_left' (iff_of_true rfl rfl)

theorem exists_cut (hlabel : isUtf8CharsetLabel (extractCharsetFromHTMLBytes bytes) = false) :
    ∃ b rest, bytes = b :: rest ∧ Cuts bytes [bytes] ∧ Cuts bytes [[b], rest] := by
  cases bytes with
  | nil => cases hlabel
  | cons b rest =>
    cases rest with
    | nil =>
      rw [extractCharsetFromHTMLBytes_singleton] at hlabel
      cases hlabel
    | cons c rest => exact ⟨b, c :: rest, rfl, by simp [Cuts], by simp [Cuts]⟩

theorem isUtf8CharsetLabel_headD
    (hcuts : Cuts bytes chunks) (h : isUtf8CharsetLabel (extractCharsetFromHTMLBytes bytes)) :
    isUtf8CharsetLabel (extractCharsetFromHTMLBytes (chunks.headD [])) := by
  cases chunks with
  | nil => rfl
  | cons c chunks =>
    rw [← hcuts.1, flatten_cons] at h
    rcases extractCharsetFromHTMLBytes_append c chunks.flatten with hnone | hsame
    · rw [headD_cons, hnone]
      rfl
    · rwa [hsame] at h

/-- Of which documents neither the encoding nor the text depends on the chunks: those that are
    not streamed, those that name no encoding or UTF-8, and those that name one that does not
    exist and have no byte order mark. -/
theorem handed_eq_iff (env : Env) (t : Transformer) (p : Page) (targetUrl : Text)
    (bytes : Http.Bytes) :
    (∀ chunks chunks', Cuts bytes chunks → Cuts bytes chunks' →
      handed env (withDecoders t) (p.cut chunks) targetUrl =
        handed env (withDecoders t) (p.cut chunks') targetUrl) ↔
    p.streams t targetUrl = false ∨
      isUtf8CharsetLabel (extractCharsetFromHTMLBytes bytes) ∨
      (t.decodeAs (jsLower (jsTrim (extractCharsetFromHTMLBytes bytes))) bytes = none ∧
        byteOrderMark.isPrefixOf bytes = false) := by
  cases hstreams : p.streams t targetUrl with
  | false =>
    refine iff_of_true (fun chunks chunks' h h' => ?_) (.inl rfl)
    rw [handed_cut, handed_cut, hstreams, h.1, h'.1]
    rfl
  | true =>
    rw [or_iff_right (by decide)]
    cases hlabel : isUtf8CharsetLabel (extractCharsetFromHTMLBytes bytes) with
    | true =>
      refine iff_of_true (fun chunks chunks' h h' => ?_) (.inl rfl)
      rw [handed_cut, handed_cut, hstreams, isUtf8CharsetLabel_headD h hlabel,
        isUtf8CharsetLabel_headD h' hlabel, h.1, h'.1]
    | false =>
      rw [or_iff_right (by decide), ← whole_eq_piecewise_iff (p := p) hlabel]
      constructor
      · intro h
        -- All in one chunk, and with a first chunk of one byte.
        obtain ⟨b, rest, rfl, hone, htwo⟩ := exists_cut hlabel
        have heq := h _ _ hone htwo
        have hbyte := extractCharsetFromHTMLBytes_singleton b
        rw [handed_cut, handed_cut, hstreams, headD_cons, headD_cons, hlabel, hbyte,
          hone.1, htwo.1] at heq
        exact Option.some.inj heq
      · intro h chunks chunks' hcuts hcuts'
        rw [handed_cut, handed_cut, hcuts.1, hcuts'.1, h, ite_self, ite_self]

end Chunks

/-! ## A first chunk that ends before the tag -/

/-- A worker whose transformer changes nothing, on the part of Shift_JIS that has one byte for a
    character. -/
def shiftJisTransformer : Transformer :=
  { idleTransformer with
    decodeAs := fun label bytes => if label == "shift_jis" then
        some (bytes.map fun b => Char.ofNat (if b < 0x80 then b.toNat else 0xff61 + b.toNat - 0xa1))
      else none
    rewriteMetaCharsetToUtf8 := fun html => (find "shift_jis" html).elim html fun i =>
        html.take i ++ "utf-8" ++ html.drop (i + 9) }

/-- A page of the type `text/html`, streamed by the kernel. -/
def streamedPage : Page where
  status := 200
  statusText := "OK"
  headers := ⟨[("content-type", "text/html"), ("x-zp-stream", "1")]⟩
  constructible := by decide
  html := by
    rintro (h | h | h)
    · exact absurd h (by decide)
    · exact absurd h (by decide)
    · exact absurd h (by decide)
  unlabelled := by decide

def shiftJisBody : Http.Bytes := utf8 "<meta charset=shift_jis>" ++ [0xb1]

/-- In one chunk, the document is read as Shift_JIS; cut behind its first byte, it is read as
    UTF-8, and its letter is lost. -/
theorem split_before_meta :
    Cuts shiftJisBody [shiftJisBody] ∧ Cuts shiftJisBody [shiftJisBody.take 1, shiftJisBody.drop 1] ∧
      handed (singleServer forgedAnswer) (withDecoders shiftJisTransformer)
          (streamedPage.cut [shiftJisBody]) "https://a.test/" =
        some ⟨"shift_jis", "<meta charset=utf-8>ｱ"⟩ ∧
      handed (singleServer forgedAnswer) (withDecoders shiftJisTransformer)
          (streamedPage.cut [shiftJisBody.take 1, shiftJisBody.drop 1])
          "https://a.test/" =
        some ⟨"utf-8", "<meta charset=shift_jis>�"⟩ := by
  refine ⟨⟨rfl, by decide⟩, ⟨rfl, by decide⟩, ?_, ?_⟩
  · rw [handed_cut]
    decide +kernel
  · rw [handed_cut]
    decide +kernel

end ZeroProxy.Worker.Charset
