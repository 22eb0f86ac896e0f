import ZeroProxy.Text.Search
import Mathlib.Algebra.Order.BigOperators.Group.List
import Mathlib.Algebra.Order.Ring.Nat

/-!
# Header lists

The `Headers` objects of the Fetch standard: lists of names and values, where names
count up to ASCII case and a name may occur more than once.
-/

namespace ZeroProxy.Http

open List Text

def isHttpWhitespace (c : Char) : Bool := c == '\t' || c == '\n' || c == '\r' || c == ' '

def isTokenChar (c : Char) : Bool := isAsciiAlnum c || "!#$%&'*+-.^_\x60|~".toList.contains c

def isToken (s : Text) : Bool := !s.isEmpty && s.all isTokenChar

def lower (s : Text) : Text := s.map Char.toLower

def normalize (value : Text) : Text := stripBoth isHttpWhitespace value

/-- A value of bytes without NUL and line breaks. -/
def isHeaderValue (value : Text) : Bool :=
  value.all fun c => c != '\x00' && c != '\n' && c != '\r' && decide (c.toNat < 0x100)

/-- A header list, its names in lower case. -/
structure Headers where
  list : List (Text × Text)

namespace Headers

variable (h : Headers) (name value : Text)

def empty : Headers := ⟨[]⟩

def values : List Text := (h.list.filter fun e => e.1 == lower name).map (·.2)

/-- The combined value of a name. -/
def get : Option Text :=
  match h.values name with
  | [] => none
  | v :: vs => some (", ".toList.intercalate (v :: vs))

def delete : Headers := ⟨h.list.filter fun e => e.1 != lower name⟩

/-- The list with one more value, or the list as it is when the name or the value is
    none of a header's (`append` then throws). -/
def append : Headers :=
  if isToken name && isHeaderValue (normalize value) then
    ⟨h.list ++ [(lower name, normalize value)]⟩
  else h

/-- The list with one value for a name. (It goes last: iteration is by name, so its place
    is not seen.) -/
def set : Headers := ⟨(h.delete name).list ++ [(lower name, normalize value)]⟩

variable {h name value}

theorem get_congr {h' : Headers} (hv : h.values name = h'.values name) :
    h.get name = h'.get name := by
  rw [get, get, hv]

theorem get_eq_none (hv : h.values name = []) : h.get name = none := by
  rw [get, hv]

theorem get_eq_some {v : Text} (hv : h.values name = [v]) : h.get name = some v := by
  rw [get, hv]
  exact congrArg some intercalate_singleton

theorem values_delete_self : (h.delete name).values name = [] := by
  rw [values, delete, filter_filter, map_eq_nil_iff, filter_eq_nil_iff]
  intro e _
  simp

variable {other : Text}

theorem values_delete_of_ne (hne : lower other ≠ lower name) :
    (h.delete name).values other = h.values other := by
  rw [values, delete, filter_filter, values]
  congr 1
  refine filter_congr fun e _ => ?_
  by_cases he : e.1 = lower other
  · rw [he, beq_self_eq_true, Bool.true_and, bne_iff_ne]
    exact hne
  · rw [beq_false_of_ne he, Bool.false_and]

theorem values_foldl_delete (names : List Text) (hne : ∀ n ∈ names, lower other ≠ lower n) :
    (names.foldl delete h).values other = h.values other := by
  induction names generalizing h with
  | nil => rfl
  | cons n names ih =>
    rw [foldl_cons, ih fun m hm => hne m (.tail _ hm), values_delete_of_ne (hne n (.head _))]

theorem values_foldl_delete_of_mem (names : List Text) (hmem : name ∈ names) :
    (names.foldl delete h).values name = [] := by
  induction names generalizing h with
  | nil => cases hmem
  | cons n names ih =>
    by_cases hn : name ∈ names
    · rw [foldl_cons, ih hn]
    obtain rfl : name = n := (mem_cons.1 hmem).resolve_right hn
    have hkeep (h : Headers) (hv : h.values name = []) :
        (names.foldl delete h).values name = [] := by
      clear ih hn hmem
      induction names generalizing h with
      | nil => exact hv
      | cons n names ih =>
        refine ih (h.delete n) ?_
        by_cases hn : lower name = lower n
        · rw [values, hn, ← values, values_delete_self]
        · rw [values_delete_of_ne hn, hv]
    rw [foldl_cons, hkeep _ values_delete_self]

theorem values_snoc_of_ne (hne : lower other ≠ lower name) :
    values ⟨h.list ++ [(lower name, value)]⟩ other = h.values other := by
  rw [values, filter_append, map_append, values,
    filter_cons_of_neg (by rw [beq_iff_eq]; exact hne.symm), filter_nil, map_nil, append_nil]

/-- The value that appending adds to those of `name`, if any. -/
def added (name : Text) (e : Text × Text) : Option Text :=
  if isToken e.1 && isHeaderValue (normalize e.2) && lower e.1 == lower name then
    some (normalize e.2)
  else none

theorem values_append (other : Text) :
    (h.append name value).values other = h.values other ++ (added other (name, value)).toList := by
  rw [append, added]
  by_cases hvalid : isToken name && isHeaderValue (normalize value)
  · rw [if_pos hvalid, hvalid, Bool.true_and]
    by_cases hname : lower name = lower other
    · rw [hname, beq_self_eq_true, values, filter_append, map_append, values,
        filter_cons_of_pos (by rw [beq_iff_eq])]
      rfl
    · rw [values_snoc_of_ne (Ne.symm hname), beq_false_of_ne hname, if_neg Bool.false_ne_true,
        Option.toList_none, append_nil]
  · rw [if_neg hvalid, Bool.eq_false_iff.2 hvalid, Bool.false_and, if_neg Bool.false_ne_true,
      Option.toList_none, append_nil]

theorem values_append_of_ne (hne : lower other ≠ lower name) :
    (h.append name value).values other = h.values other := by
  rw [values_append, added, beq_false_of_ne hne.symm, Bool.and_false, if_neg Bool.false_ne_true,
    Option.toList_none, append_nil]

theorem values_set_self : (h.set name value).values name = [normalize value] := by
  have hnil : (h.delete name).values name = [] := values_delete_self
  rw [values] at hnil
  rw [set, values, filter_append, map_append, hnil, nil_append,
    filter_cons_of_pos (by rw [beq_iff_eq]), filter_nil, map_cons, map_nil]

theorem values_set_of_ne (hne : lower other ≠ lower name) :
    (h.set name value).values other = h.values other := by
  rw [set, values_snoc_of_ne hne, values_delete_of_ne hne]

end Headers

/-! ## MIME types

The combined value of the `Content-Type` headers is split at the commas outside quoted strings,
and the last part that parses counts. -/

/-- A MIME type without its parameters, in lower case. -/
structure MimeType where
  type : Text
  subtype : Text

namespace MimeType

def essence (m : MimeType) : Text := m.type ++ '/' :: m.subtype

def isHtml (m : MimeType) : Bool := m.essence == "text/html"

/-- An XML document. -/
def isXml (m : MimeType) : Bool := "+xml".toList.isSuffixOf m.subtype || m.essence == "text/xml" ||
    m.essence == "application/xml"

def isScriptable (m : MimeType) : Bool := m.isHtml || m.isXml

/-- The type that a value names. -/
def parse (value : Text) : Option MimeType :=
  let s := stripBoth isHttpWhitespace value
  match s.dropWhile (· != '/') with
  | [] => none
  | _ :: rest =>
    let type := s.takeWhile (· != '/')
    let subtype := (rest.takeWhile (· != ';')).rdropWhile isHttpWhitespace
    if isToken type && isToken subtype then some ⟨lower type, lower subtype⟩ else none

end MimeType

/-- Where a reader of a combined value stands: outside a quoted string, in one, or after a
    backslash in one. -/
inductive Quote
  | outside
  | inside
  | escaped

/-- The place after a character other than a comma outside quotes. -/
def Quote.next : Quote → Char → Quote
  | outside, c => if c = '"' then inside else outside
  | inside, c => if c = '"' then outside else if c = '\\' then escaped else inside
  | escaped, _ => inside

def trimPart (s : Text) : Text := stripBoth (fun c => c == '\t' || c == ' ') s

/-- The parts of a combined value from a place on; `part` is what was read of the first. -/
def splitFrom (part : Text) : Quote → Text → List Text
  | _, [] => [trimPart part]
  | .outside, ',' :: s => trimPart part :: splitFrom [] .outside s
  | q, c :: s => splitFrom (part ++ [c]) (q.next c) s

/-- The parts of a combined value, split at the commas outside quoted strings. -/
def splitValues (value : Text) : List Text := splitFrom [] .outside value

/-- The type that a browser takes from the combined value of `Content-Type`. -/
def extractType (value : Text) : Option MimeType :=
  (((splitValues value).filterMap MimeType.parse).filter (·.essence != "*/*".toList)).getLast?

/-! ## Where the type stands in a header -/

/-! ### Tokens

White space and case do not matter to a token in lower case, and a list of tokens can be read back
after it was joined by commas. -/

open Bool

variable {n : Text}

theorem toNat_of_isTokenChar {c : Char} (h : isTokenChar c) : 0x20 < c.toNat ∧ c.toNat < 0x7f := by
  rw [isTokenChar, or_eq_true, contains_iff_mem] at h
  rcases h with h | h
  · simp only [isAsciiAlnum, isAsciiAlpha, isAsciiDigit, or_eq_true, and_eq_true,
      decide_eq_true_eq] at h
    omega
  · have hall : ("!#$%&'*+-.^_\x60|~".toList.all fun c =>
        decide (0x20 < c.toNat ∧ c.toNat < 0x7f)) := by decide
    exact of_decide_eq_true (all_eq_true.1 hall c h)

theorem chars_of_isToken (h : isToken n) : n ≠ [] ∧ ∀ c ∈ n, isTokenChar c := by
  rwa [isToken, and_eq_true, all_eq_true, not_eq_true', isEmpty_eq_false_iff]
    at h

/-! ### White space -/

theorem stripBoth_of_isToken {p : Char → Bool} (hp : ∀ c, isTokenChar c → p c = false)
    (h : isToken n) : stripBoth p n = n := by
  have hany {c : Option Char} (hc : ∀ d ∈ c, d ∈ n) : c.any p = false := by
    cases c with
    | none => rfl
    | some d => exact hp d ((chars_of_isToken h).2 d (hc d rfl))
  exact stripBoth_eq_self (hany fun d hd => mem_of_mem_head? hd)
    (hany fun d hd => mem_of_mem_getLast? hd)

theorem jsTrim_of_isToken (h : isToken n) : jsTrim n = n := by
  refine stripBoth_of_isToken (fun c hc => ?_) h
  have := toNat_of_isTokenChar hc
  simp only [isJsWhitespace, or_eq_false_iff, and_eq_false_iff, decide_eq_false_iff_not,
    beq_eq_false_iff_ne]
  omega

theorem rustTrim_of_isToken (h : isToken n) : rustTrim n = n := by
  refine stripBoth_of_isToken (fun c hc => ?_) h
  have := toNat_of_isTokenChar hc
  simp only [isRustWhitespace, or_eq_false_iff, and_eq_false_iff,
    decide_eq_false_iff_not, beq_eq_false_iff_ne]
  omega

/-! ### Case -/

theorem jsLower_of_isToken (h : isToken n) : jsLower n = lower n := by
  refine jsLower_eq_map fun c hc => ?_
  have := toNat_of_isTokenChar ((chars_of_isToken h).2 c hc)
  constructor
  all_goals
    rintro rfl
    revert this
    decide

/-! ### Lists -/

theorem split_intercalate {names : List Text} (h : ∀ n ∈ names, isToken n) (hne : names ≠ []) :
    split (· == ',') (",".toList.intercalate names) = names := by
  have hcomma : ∀ n ∈ names, ',' ∉ n := fun n hn hc =>
    absurd ((chars_of_isToken (h n hn)).2 _ hc) (by decide)
  exact splitOn_intercalate ',' hcomma hne

/-! ## Responses

The `Response` objects that a service worker passes around, and what the browser makes of them. -/

abbrev Bytes := List UInt8

/-- A stream of bytes: its chunks, and whether it fails after them. -/
structure Stream where
  chunks : List Bytes
  failed : Bool
  deriving DecidableEq

def Stream.readAll (s : Stream) : Option Bytes := if s.failed then none else some s.chunks.flatten

/-- Whether a body can be read: nobody read from it, somebody did, or a reader holds it. -/
inductive Use
  | fresh
  | disturbed
  | locked
  deriving DecidableEq

/-- The body of a response. -/
inductive Body
  | null
  /-- Bytes from the network, as they came. -/
  | network (stream : Stream) (use : Use)
  /-- A stream that fails before its first byte. -/
  | failed
  | text (text : Text)
  /-- The output of a transformation of a stream. -/
  | piped (output : Stream)
  deriving DecidableEq

/-- The bytes of a body, when they can be read and do not fail. -/
def Body.readAll : Body → Option Bytes
  | null => some []
  | network s .fresh => s.readAll
  | network _ _ => none
  | failed => none
  | text t => some (t.flatMap String.utf8EncodeChar)
  | piped s => s.readAll

def Body.disturb : Body → Body
  | network s .fresh => network s .disturbed
  | b => b

def Body.lock : Body → Body
  | network s _ => network s .locked
  | b => b

/-- A response of the worker. -/
structure Response where
  status : Nat
  statusText : Text
  headers : Headers
  body : Body

/-- What the browser gets. -/
inductive Served
  | networkError
  | response (r : Response)

def isNullBodyStatus (status : Nat) : Bool := [101, 103, 204, 205, 304].contains status

/-- The characters of a status text: tab, space, and what is visible in Latin-1. -/
def isReasonChar (c : Char) : Bool :=
  c == '\t' || (decide (0x20 ≤ c.toNat) && c.toNat != 0x7f && decide (c.toNat < 0x100))

def forbiddenResponseHeaders : List Text := ["set-cookie", "set-cookie2"]

/-- The status, the status text and the body of a response. -/
def Constructible (status : Nat) (statusText : Text) (body : Body) : Prop :=
  200 ≤ status ∧ status ≤ 599 ∧ statusText.all isReasonChar ∧
    (isNullBodyStatus status → body = .null)

instance (status : Nat) (statusText : Text) (body : Body) :
    Decidable (Constructible status statusText body) :=
  inferInstanceAs (Decidable (_ ∧ _ ∧ _ ∧ _))

/-- `new Response(body, { status, statusText, headers })`, unless it throws. -/
def newResponse (status : Nat) (statusText : Text) (headers : Headers) (body : Body) :
    Option Response :=
  if Constructible status statusText body then
    some ⟨status, statusText, forbiddenResponseHeaders.foldl Headers.delete headers, body⟩
  else none

/-- The answer to the browser. -/
def respondWith (r : Response) : Served :=
  match r.body with
  | .network _ .disturbed | .network _ .locked => .networkError
  | _ => .response r

theorem newResponse_spec {status : Nat} {statusText : Text} {headers : Headers} {body : Body}
    {r : Response} (h : newResponse status statusText headers body = some r) :
    r.status = status ∧ r.body = body ∧ Constructible r.status r.statusText r.body ∧
      ∀ name, (∀ n ∈ forbiddenResponseHeaders, lower name ≠ lower n) →
        r.headers.values name = headers.values name := by
  rw [newResponse] at h
  split at h
  · rename_i hc
    cases h
    exact ⟨rfl, rfl, hc, fun name hname => Headers.values_foldl_delete _ hname⟩
  · cases h

theorem values_newResponse_of_forbidden {status : Nat} {statusText : Text} {headers : Headers}
    {body : Body} {r : Response} (h : newResponse status statusText headers body = some r)
    {name : Text} (hname : name ∈ forbiddenResponseHeaders) : r.headers.values name = [] := by
  rw [newResponse] at h
  split at h
  · cases h
    exact Headers.values_foldl_delete_of_mem _ hname
  · cases h

theorem respondWith_spec {r r' : Response} (h : respondWith r = .response r') :
    r' = r ∧ ∀ s use, r.body = .network s use → use = .fresh := by
  rw [respondWith] at h
  split at h
  · cases h
  · cases h
  rename_i h1 h2
  refine ⟨(Served.response.inj h).symm, fun s use hbody => ?_⟩
  cases use with
  | fresh => rfl
  | disturbed => exact absurd hbody (h1 s)
  | locked => exact absurd hbody (h2 s)

/-! ## Safelisted request headers

What a page may send across origins without asking first. -/

/-- A CORS-unsafe request-header byte. -/
def isCorsUnsafeByte (c : Char) : Bool :=
  (decide (c.toNat < 0x20) && c != '\t') || "\"():<>?@[\\]\x7b\x7d\x7f".toList.contains c

/-- A byte of `Accept-Language` and `Content-Language`. -/
def isLanguageByte (c : Char) : Bool := isAsciiAlnum c || " *,-.;=".toList.contains c

def decimal (digits : Text) : Nat := digits.foldl (fun n c => 10 * n + (c.toNat - '0'.toNat)) 0

/-- A single range with a start, and an end that is not before it, if there is one. -/
def isRangeWithStart (value : Text) : Bool := match stripPrefix "bytes=" value with
  | none => false
  | some s =>
    let start := s.takeWhile isAsciiDigit
    match s.dropWhile isAsciiDigit with
    | '-' :: stop =>
      !start.isEmpty && stop.all isAsciiDigit && (stop.isEmpty || decide (decimal start ≤ decimal stop))
    | _ => false

def isSafelisted (name value : Text) : Bool :=
  decide (value.length ≤ 128) &&
    if name == "accept" then !value.any isCorsUnsafeByte
    else if name == "accept-language" || name == "content-language" then
      value.all isLanguageByte
    else if name == "content-type" then
      !value.any isCorsUnsafeByte && (MimeType.parse value).any fun m =>
        ["application/x-www-form-urlencoded".toList, "multipart/form-data",
          "text/plain"].contains m.essence
    else name == "range" && isRangeWithStart value

def Headers.safelisted (h : Headers) : List (Text × Text) :=
  h.list.filter fun e => isSafelisted e.1 e.2

open Headers

/-- The CORS-unsafe request-header names. -/
def unsafeRequestHeaderNames (h : Headers) : List Text :=
  (h.list.filter fun e => !isSafelisted e.1 e.2).map (·.1) ++
    if 1024 < (h.safelisted.map (·.2.length)).sum then h.safelisted.map (·.1) else []

/-- The headers whose names satisfy `p`. -/
def Headers.restrict (h : Headers) (p : Text → Bool) : Headers := ⟨h.list.filter fun e => p e.1⟩

variable {h : Headers} {p q : Text → Bool} {name : Text}

theorem Headers.restrict_restrict : (h.restrict p).restrict q = h.restrict fun n => p n && q n := by
  rw [restrict, restrict, restrict, filter_filter]
  simp [Bool.and_comm]

theorem Headers.restrict_true : h.restrict (fun _ => true) = h := by
  rw [restrict, filter_true]

theorem Headers.delete_eq_restrict : h.delete name = h.restrict (· != lower name) := rfl

theorem Headers.values_restrict (hp : p (lower name)) :
    (h.restrict p).values name = h.values name := by
  rw [values, restrict, filter_filter, values]
  congr 1
  refine filter_congr fun e _ => ?_
  by_cases he : e.1 = lower name
  · rw [he, hp, Bool.and_true]
  · rw [beq_false_of_ne he, Bool.false_and]

theorem Headers.get_cons_self {other value : Text} {l : List (Text × Text)}
    (hn : other = lower name) (hl : other ∉ l.map (·.1)) :
    get ⟨(other, value) :: l⟩ name = some value := by
  subst hn
  have hrest : l.filter (fun e => e.1 == lower name) = [] :=
    filter_eq_nil_iff.2 fun e he h => hl (beq_iff_eq.1 h ▸ mem_map_of_mem he)
  refine get_eq_some ?_
  rw [values, filter_cons, if_pos (beq_self_eq_true _), hrest]
  rfl

theorem Headers.get_cons_of_ne {other value : Text} {l : List (Text × Text)}
    (hne : other ≠ lower name) : get ⟨(other, value) :: l⟩ name = get ⟨l⟩ name := by
  refine get_congr ?_
  rw [values, filter_cons_of_neg (by simpa using hne), values]

theorem mem_unsafeRequestHeaderNames_restrict
    (hn : name ∈ unsafeRequestHeaderNames (h.restrict p)) :
    name ∈ unsafeRequestHeaderNames h ∧ p name := by
  have hsafe : (h.restrict p).safelisted.Sublist h.safelisted := filter_sublist.filter _
  have hmem {e : Text × Text} {f : Text × Text → Bool}
      (he : e ∈ ((h.restrict p).list.filter f)) : e ∈ h.list.filter f ∧ p e.1 := by
    obtain ⟨he, hf⟩ := mem_filter.1 he
    obtain ⟨he, hp⟩ := mem_filter.1 he
    exact ⟨mem_filter.2 ⟨he, hf⟩, hp⟩
  rcases mem_append.1 hn with hn | hn
  · obtain ⟨e, he, rfl⟩ := mem_map.1 hn
    obtain ⟨he, hp⟩ := hmem he
    exact ⟨mem_append_left _ (mem_map_of_mem he), hp⟩
  split_ifs at hn with hlong
  · obtain ⟨e, he, rfl⟩ := mem_map.1 hn
    obtain ⟨he, hp⟩ := hmem he
    refine ⟨mem_append_right _ ?_, hp⟩
    rw [if_pos (hlong.trans_le ((hsafe.map _).sum_le_sum fun _ _ => Nat.zero_le _))]
    exact mem_map_of_mem he
  · cases hn

theorem mem_unsafeRequestHeaderNames_delete {other : Text}
    (hother : ∀ value, isSafelisted other value = false) (hne : name ≠ other)
    (hn : name ∈ unsafeRequestHeaderNames h) :
    name ∈ unsafeRequestHeaderNames (h.restrict (· != other)) := by
  have hsafe : (h.restrict (· != other)).safelisted = h.safelisted := by
    rw [safelisted, restrict, filter_filter, safelisted]
    refine filter_congr fun e _ => ?_
    by_cases he : e.1 = other
    · rw [he, hother, Bool.false_and]
    · rw [bne_iff_ne.2 he, Bool.and_true]
  rw [unsafeRequestHeaderNames, hsafe]
  refine mem_append.2 ((mem_append.1 hn).imp_left fun hn => ?_)
  obtain ⟨e, he, rfl⟩ := mem_map.1 hn
  obtain ⟨he, hf⟩ := mem_filter.1 he
  exact mem_map_of_mem (mem_filter.2 ⟨mem_filter.2 ⟨he, bne_iff_ne.2 hne⟩, hf⟩)

theorem mem_of_mem_unsafeRequestHeaderNames (hn : name ∈ unsafeRequestHeaderNames h) :
    name ∈ h.list.map (·.1) := by
  rcases mem_append.1 hn with hn | hn
  · obtain ⟨e, he, rfl⟩ := mem_map.1 hn
    exact mem_map_of_mem (mem_filter.1 he).1
  · split_ifs at hn
    · obtain ⟨e, he, rfl⟩ := mem_map.1 hn
      exact mem_map_of_mem (mem_filter.1 he).1
    · cases hn

end ZeroProxy.Http
