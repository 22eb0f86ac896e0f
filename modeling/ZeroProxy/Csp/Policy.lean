import ZeroProxy.Text.Search

/-!
# Content security policies

A policy is the list of its directives, as Content Security Policy Level 3 parses them, and it
decides what a document may do by the first directive of a fallback list that it has. Of two
directives of one name the first counts.
-/

namespace ZeroProxy.Csp

open List Text

/-- The nonempty parts of a text between characters of `p`. -/
def words (p : Char → Bool) (s : Text) : List Text := (split p s).filter (! ·.isEmpty)

/-- A directive: its name and its value. -/
structure Directive where
  name : Text
  value : List Text

def isAscii (s : Text) : Bool := s.all (·.toNat < 0x80)

def isPart (w : Text) : Bool := !w.isEmpty && w.all fun c => !isAsciiWhitespace c && c != ';'

theorem isPart_iff {w : Text} :
    isPart w ↔ w ≠ [] ∧ ∀ c ∈ w, isAsciiWhitespace c = false ∧ c ≠ ';' := by
  simp [isPart]

namespace Directive

def text (d : Directive) : Text := joined ' ' (d.name :: d.value)

def ascii (d : Directive) : Bool := (d.name :: d.value).all isAscii

/-- The directive a segment of a policy holds, its parts being between characters of `p`. -/
def read (p : Char → Bool) (segment : Text) : Option Directive :=
  match words p segment with
  | [] => none
  | name :: value => some ⟨name.map Char.toLower, value⟩

/-- A directive that is read back from its text. -/
structure Clean (d : Directive) : Prop where
  lower : d.name.map Char.toLower = d.name
  part : ∀ w ∈ d.name :: d.value, isPart w

theorem Clean.of_value {d e : Directive} (hd : d.Clean) (hname : e.name = d.name)
    (h : ∀ w ∈ e.value, w ∈ d.value ∨ isPart w) : e.Clean := by
  refine ⟨hname ▸ hd.lower, forall_mem_cons.2 ⟨hname ▸ hd.part _ (.head _), ?_⟩⟩
  exact fun w hw => (h w hw).elim (fun hw => hd.part w (.tail _ hw)) id

end Directive

open Directive

/-- A segment that is not of ASCII characters counts for nothing. -/
def parseSegment (segment : Text) : Option Directive :=
  if isAscii segment then read isAsciiWhitespace segment else none

def parse (serialized : Text) : List Directive :=
  (split (· == ';') serialized).filterMap parseSegment

/-! ## What a policy allows -/

def lookup (policy : List Directive) (name : Text) : Option Directive :=
  policy.find? (·.name == name)

/-- The directive that decides for a fallback list. -/
def effective (policy : List Directive) (names : List Text) : Option Directive :=
  names.findSome? (lookup policy)

def isBase64Value (t : Text) : Bool :=
  let pad := t.dropWhile fun c => isAsciiAlnum c || "+/-_".toList.contains c
  pad.length < t.length && (pad == [] || pad == ['='] || pad == ['=', '='])

def isNonceOrHash (e : Text) : Bool :=
  ["'nonce-", "'sha256-", "'sha384-", "'sha512-"].any fun p =>
    startsWithCI e p.toList && e.getLast? == some '\'' &&
      isBase64Value (e.drop p.length).dropLast

def isStrictDynamic (e : Text) : Bool := eqCI e "'strict-dynamic'"

/-- No expression of the list takes the effect of `'unsafe-inline'` away. -/
def clear (script : Bool) (list : List Text) : Bool :=
  list.all fun e => !isNonceOrHash e && !(script && isStrictDynamic e)

/-- The list allows every inline script, or style. -/
def allowsInline (script : Bool) (list : List Text) : Bool :=
  list.any (eqCI · "'unsafe-inline'") && clear script list

/-- Resources with a directive of their own. -/
inductive Resource where
  | img | media | font | object | manifest | prefetch | formAction | baseUri

/-- What a document does that its policy decides. Elements and requests have no nonce and no
    integrity metadata. -/
inductive Use where
  | inlineScript | scriptAttribute | inlineStyle | styleAttribute | eval
  | script (parserInserted : Bool)
  | stylesheet | connect | frame | worker
  | resource (kind : Resource)

def texts (l : List String) : List Text := l.map String.toList

def Resource.fallback : Resource → List String
  | img => ["img-src", "default-src"]
  | media => ["media-src", "default-src"]
  | font => ["font-src", "default-src"]
  | object => ["object-src", "default-src"]
  | manifest => ["manifest-src", "default-src"]
  | prefetch => ["prefetch-src", "default-src"]
  | formAction => ["form-action"]
  | baseUri => ["base-uri"]

namespace Use

def fallback : Use → List String
  | inlineScript | script _ => ["script-src-elem", "script-src", "default-src"]
  | scriptAttribute => ["script-src-attr", "script-src", "default-src"]
  | inlineStyle | stylesheet => ["style-src-elem", "style-src", "default-src"]
  | styleAttribute => ["style-src-attr", "style-src", "default-src"]
  | eval => ["script-src", "default-src"]
  | connect => ["connect-src", "default-src"]
  | frame => ["frame-src", "child-src", "default-src"]
  | worker => ["worker-src", "child-src", "script-src", "default-src"]
  | resource kind => kind.fallback

/-- The directive has `'strict-dynamic'`, which takes the place of its other sources. -/
def strictIn (d : Directive) : Use → Bool
  | script _ => d.value.any isStrictDynamic
  | worker => d.name == "script-src" && d.value.any isStrictDynamic
  | _ => false

def inserted : Use → Bool
  | script parserInserted => parserInserted
  | _ => false

/-- The directive allows the use, where `hits` tells the source expressions that match the URL of
    a request. -/
def accepted (hits : Text → Bool) (d : Directive) (use : Use) : Bool :=
  match use with
  | inlineScript | scriptAttribute => allowsInline true d.value
  | inlineStyle | styleAttribute => allowsInline false d.value
  | eval => d.value.any (eqCI · "'unsafe-eval'")
  | _ => if use.strictIn d then !use.inserted else d.value.any hits

def isRequest : Use → Bool
  | script _ | stylesheet | connect | frame | worker | resource _ => true
  | _ => false

theorem accepted_of_isRequest {use : Use} (h : use.isRequest) (hits : Text → Bool) (d : Directive) :
    use.accepted hits d = if use.strictIn d then !use.inserted else d.value.any hits := by
  cases use <;> first | rfl | cases h

def allowed (hits : Text → Bool) (policy : List Directive) (use : Use) : Bool :=
  (effective policy (texts use.fallback)).all (accepted hits · use)

end Use

/-! ## Directives of a name -/

variable {g : Directive → Option Directive} {n : Text}

variable {d : Directive}

theorem of_lookup {policy : List Directive} (h : lookup policy n = some d) :
    d ∈ policy ∧ d.name = n :=
  ⟨mem_of_find?_eq_some h, by
    simpa using find?_some (p := fun d : Directive => d.name == n) h⟩

theorem lookup_cons (d : Directive) (ds : List Directive) :
    lookup (d :: ds) n = if d.name = n then some d else lookup ds n := by
  grind [lookup]

theorem lookup_append_of_forall_ne {a : List Directive} (h : ∀ d ∈ a, d.name ≠ n)
    (b : List Directive) : lookup (a ++ b) n = lookup b n := by
  rw [lookup, find?_append, find?_eq_none.2 (by simpa using h), Option.none_or, lookup]

/-- A pass over the directives that changes those of a name by `f` and keeps just the ones of
    `keep`. -/
theorem lookup_filterMap {keep : Directive → Bool} {f : Directive → Directive}
    (hname : ∀ d e, g d = some e → e.name = d.name)
    (hg : ∀ d, d.name = n → g d = if keep d then some (f d) else none) (ds : List Directive) :
    lookup (ds.filterMap g) n = (lookup (ds.filter keep) n).map f := by
  induction ds with
  | nil => rfl
  | cons d ds ih =>
    rw [filterMap_cons, filter_cons]
    by_cases hd : d.name = n
    · rw [hg d hd]
      cases hk : keep d with
      | false => exact ih
      | true =>
        have hf := hname d (f d) (by rw [hg d hd, hk]; rfl)
        simp [lookup_cons, hf, hd]
    have hrest : lookup (if keep d then d :: ds.filter keep else ds.filter keep) n =
        lookup (ds.filter keep) n := by
      split <;> simp [lookup_cons, hd]
    rw [hrest, ← ih]
    cases hgd : g d with
    | none => rfl
    | some e => simp [lookup_cons, hname d e hgd, hd]

/-! ## Reading a policy back -/

variable {p : Char → Bool}

theorem words_joined {sep : Char} (hsep : p sep) {ws : List Text}
    (h : ∀ w ∈ ws, w ≠ [] ∧ ∀ c ∈ w, p c = false) : words p (joined sep ws) = ws := by
  induction ws with
  | nil => rfl
  | cons w ws ih =>
    rw [forall_mem_cons] at h
    cases ws with
    | nil => simp [words, split, splitOnP_eq_singleton h.1.2, h.1.1]
    | cons v ws =>
      rw [joined_cons_cons, words, split, splitOnP_append_cons_of_forall_mem h.1.2 sep hsep,
        filter_cons_of_pos (by simp [h.1.1]), ← split, ← words, ih h.2]

theorem mem_of_mem_split {s w : Text} (h : w ∈ split p s) : ∀ c ∈ w, p c = false ∧ c ∈ s := by
  induction s generalizing w with
  | nil =>
    cases mem_singleton.1 h
    simp
  | cons a s ih =>
    rw [split, splitOnP_cons_eq_if_modifyHead, ← split] at h
    cases ha : p a <;> rw [ha] at h
    · cases hs : split p s with
      | nil => simp [hs] at h
      | cons v vs =>
        simp [hs] at h ih
        grind
    · grind

theorem read_clean (hp : ∀ c, isAsciiWhitespace c → p c)
    (hlow : ∀ c, p c.toLower = p c) {segment : Text} (hsep : ';' ∉ segment)
    (h : read p segment = some d) : d.Clean := by
  have hword : ∀ w ∈ words p segment, w ≠ [] ∧ ∀ c ∈ w, p c = false ∧ c ≠ ';' := fun w hw => by
    obtain ⟨hw, hne⟩ := mem_filter.1 hw
    exact ⟨by simpa using hne, fun c hc => ⟨(mem_of_mem_split hw c hc).1, fun e =>
      hsep (e ▸ (mem_of_mem_split hw c hc).2)⟩⟩
  have hsp (c : Char) (hc : p c = false) : isAsciiWhitespace c = false :=
    Bool.eq_false_iff.2 fun h' => by simp [hp c h'] at hc
  rw [Directive.read] at h
  cases hws : words p segment with
  | nil => simp [hws] at h
  | cons name value =>
    simp only [hws, Option.some.injEq] at h
    subst h
    rw [hws, forall_mem_cons] at hword
    refine ⟨map_map.trans (map_congr_left fun c _ => toLower_toLower c), forall_mem_cons.2
      ⟨isPart_iff.2 ⟨by simpa using hword.1.1, fun c hc => ?_⟩, fun w hw => isPart_iff.2
        ⟨(hword.2 w hw).1, fun c hc => ((hword.2 w hw).2 c hc).imp_left (hsp c)⟩⟩⟩
    obtain ⟨b, hb, rfl⟩ := mem_map.1 hc
    exact ⟨hsp _ ((hlow b).trans (hword.1.2 b hb).1), fun e =>
      (hword.1.2 b hb).2 (eq_of_toLower_eq e (by decide))⟩

theorem isAscii_joined (ws : List Text) : isAscii (joined ' ' ws) = ws.all isAscii := by
  induction ws with
  | nil => rfl
  | cons w ws ih =>
    cases ws with
    | nil => simp
    | cons v ws =>
      rw [all_cons, ← ih, joined_cons_cons]
      simp [isAscii]

theorem parseSegment_text (hd : d.Clean) :
    parseSegment d.text = if d.ascii then some d else none := by
  rw [parseSegment, Directive.read, Directive.text, words_joined rfl fun w hw =>
    (isPart_iff.1 (hd.part w hw)).imp_right fun h c hc => (h c hc).1, isAscii_joined]
  simp only [hd.lower]
  rfl

theorem parseSegment_space_cons (s : Text) : parseSegment (' ' :: s) = parseSegment s := by
  rw [parseSegment, Directive.read]
  rfl

theorem parse_space_cons (s : Text) : parse (' ' :: s) = parse s := by
  rw [parse, split, splitOnP_cons_eq_if_modifyHead, if_neg (by decide), ← split, parse]
  cases split (· == ';') s with
  | nil => rfl
  | cons t ts => rw [modifyHead_cons, filterMap_cons, parseSegment_space_cons, ← filterMap_cons]

theorem parse_texts {ds : List Directive} (h : ∀ d ∈ ds, d.Clean) :
    parse ([';', ' '].intercalate (ds.map text)) = ds.filter ascii := by
  induction ds with
  | nil => rfl
  | cons d ds ih =>
    rw [forall_mem_cons] at h
    have hsep : ∀ c ∈ d.text, (c == ';') = false := fun c hc => beq_eq_false_iff_ne.2 fun e =>
      not_mem_joined (by decide) (fun w hw h' => ((isPart_iff.1 (h.1.part w hw)).2 _ h').2 rfl) (e ▸ hc)
    cases ds with
    | nil =>
      rw [map_singleton, intercalate_singleton, parse, split,
        splitOnP_eq_singleton hsep, filterMap_cons, parseSegment_text h.1]
      cases hd : d.ascii <;> simp [hd]
    | cons e ds =>
      rw [map_cons, map_cons, intercalate_cons_cons, append_assoc, cons_append, parse, split,
        splitOnP_append_cons_of_forall_mem hsep ';' rfl, filterMap_cons, ← split, ← parse,
        singleton_append, parse_space_cons, ← map_cons, ih h.2, parseSegment_text h.1]
      cases hd : d.ascii <;> simp [hd]

end ZeroProxy.Csp
