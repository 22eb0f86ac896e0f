import ZeroProxy.Http.Headers

/-!
# Referrer policies

How the worker makes a `Referer` from a policy, what a policy permits, and which one it applies
after redirects and documents that declare one. A redirect's header is taken as one word and kept
with the request, a document's as a list of tokens and kept with the entry.

A document changes its history and its base, and tells the worker by messages. The worker keeps a
record of every entry, with the policy of the document in it, and reads it when the document
fetches.
-/

namespace ZeroProxy.Worker.Referrer

section

open Option Text

/-- What is read of a URL. -/
structure Address where
  protocol : Text
  username : Text
  password : Text
  host : Text
  origin : Text
  /-- Without credentials and fragment. -/
  bare : Text

/-- The functions of URLs that the page and the worker call. -/
structure Addresses where
  /-- `new URL(href)`. -/
  parse : Text → Option Address
  /-- `new URL(raw, base).href`. -/
  resolve : Text → Text → Option Text
  /-- `ZP.canonicalTargetURL(raw, base).href`. -/
  canonical : Text → Option Text → Option Text
  /-- `targetURL(raw, base)` of the page. -/
  target : Text → Text → Option Text
  /-- The address with another fragment. -/
  withHash : Text → Text → Text

/-! ## Policies -/

/-- The referrer policies. -/
inductive Policy
  | noReferrer
  | unsafeUrl
  | origin
  | originWhenCrossOrigin
  | sameOrigin
  | strictOrigin
  | noReferrerWhenDowngrade
  | strictOriginWhenCrossOrigin
  deriving DecidableEq

open Policy

/-- The policy of a token. -/
def Policy.ofToken (token : Text) : Option Policy := if token = "no-referrer" then some .noReferrer
  else if token = "unsafe-url" then some .unsafeUrl
  else if token = "origin" then some .origin
  else if token = "origin-when-cross-origin" then some .originWhenCrossOrigin
  else if token = "same-origin" then some .sameOrigin
  else if token = "strict-origin" then some .strictOrigin
  else if token = "no-referrer-when-downgrade" then some .noReferrerWhenDowngrade
  else if token = "strict-origin-when-cross-origin" then some .strictOriginWhenCrossOrigin
  else none

/-- The policy of a document that sets none. -/
def Policy.default : Policy := .strictOriginWhenCrossOrigin

/-- What a request tells of the address it comes from. -/
inductive Level
  | nothing
  | origin
  | full

namespace Level

/-- How much it is. -/
def rank : Level → Nat
  | nothing => 0
  | origin => 1
  | full => 2

instance : LE Level := ⟨fun l l' => l.rank ≤ l'.rank⟩

def value (b : Address) : Level → Text
  | nothing => []
  | origin => b.origin ++ "/"
  | full => b.bare

end Level

open Level

def Address.isHttp (b : Address) : Bool := b.protocol == "http:" || b.protocol == "https:"

/-- The request leaves HTTPS. -/
def downgrade (b t : Address) : Bool := b.protocol == "https:" && t.protocol == "http:"

/-- What a policy lets a request from `b` to `t` tell of `b`. -/
def Policy.level (b t : Address) : Policy → Level
  | noReferrer => .nothing
  | unsafeUrl => .full
  | origin => .origin
  | originWhenCrossOrigin => if b.origin = t.origin then .full else .origin
  | sameOrigin => if b.origin = t.origin then .full else .nothing
  | strictOrigin => if downgrade b t then .nothing else .origin
  | noReferrerWhenDowngrade => if downgrade b t then .nothing else .full
  | strictOriginWhenCrossOrigin =>
    if downgrade b t then .nothing else if b.origin = t.origin then .full else .origin

/-! ## The worker's header -/

section

variable (urls : Addresses)

/-- The value that the worker computes; empty for none. -/
def refererForPolicy (base targetUrl policy : Text) : Text :=
  match urls.parse base, urls.parse targetUrl with
  | some b, some tgt =>
    if !b.isHttp then []
    else
      let sameOrigin := b.origin == tgt.origin
      let full := b.bare
      let originOnly := b.origin ++ "/"
      let token := jsLower policy
      if token = "no-referrer" then []
      else if token = "unsafe-url" then full
      else if token = "origin" then originOnly
      else if token = "origin-when-cross-origin" then if sameOrigin then full else originOnly
      else if token = "same-origin" then if sameOrigin then full else []
      else if token = "strict-origin" then if downgrade b tgt then [] else originOnly
      else if token = "no-referrer-when-downgrade" then if downgrade b tgt then [] else full
      else if downgrade b tgt then [] else if sameOrigin then full else originOnly
  | _, _ => []

/-- The policy that the worker reads. -/
def policyOf (token : Text) : Policy := (ofToken (jsLower token)).getD .default

variable {urls}

theorem refererForPolicy_eq {base targetUrl : Text} {b t : Address} (hb : urls.parse base = some b)
    (ht : urls.parse targetUrl = some t) (hhttp : b.isHttp) (token : Text) :
    refererForPolicy urls base targetUrl token = ((policyOf token).level b t).value b := by
  rw [refererForPolicy, hb, ht]
  dsimp only
  rw [hhttp, Bool.not_true, if_neg Bool.false_ne_true, policyOf, ofToken]
  generalize jsLower token = tok
  by_cases h1 : tok = "no-referrer"
  · rw [if_pos h1, if_pos h1]
    rfl
  by_cases h2 : tok = "unsafe-url"
  · rw [if_neg h1, if_pos h2, if_neg h1, if_pos h2]
    rfl
  by_cases h3 : tok = "origin"
  · rw [if_neg h1, if_neg h2, if_pos h3, if_neg h1, if_neg h2, if_pos h3]
    rfl
  rw [if_neg h1, if_neg h2, if_neg h3, if_neg h1, if_neg h2, if_neg h3]
  by_cases h4 : tok = "origin-when-cross-origin"
  · rw [if_pos h4, if_pos h4, getD_some, level, apply_ite (value b)]
    exact if_congr beq_iff_eq rfl rfl
  by_cases h5 : tok = "same-origin"
  · rw [if_neg h4, if_pos h5, if_neg h4, if_pos h5, getD_some, level, apply_ite (value b)]
    exact if_congr beq_iff_eq rfl rfl
  by_cases h6 : tok = "strict-origin"
  · rw [if_neg h4, if_neg h5, if_pos h6, if_neg h4, if_neg h5, if_pos h6, getD_some,
      level, apply_ite (value b)]
    rfl
  rw [if_neg h4, if_neg h5, if_neg h6, if_neg h4, if_neg h5, if_neg h6]
  by_cases h7 : tok = "no-referrer-when-downgrade"
  · rw [if_pos h7, if_pos h7, getD_some, level, apply_ite (value b)]
    rfl
  -- The last policy is the default, and is also what any other token is taken for.
  rw [if_neg h7, if_neg h7, apply_ite (getD · default), getD_some, getD_none,
    Policy.default, ite_self, Policy.level, apply_ite (value b), apply_ite (value b)]
  exact if_congr Iff.rfl rfl (if_congr beq_iff_eq rfl rfl)

end

/-! ## What a document declares -/

/-- Where a document declares its policy: the response header, and the contents of the elements
    `meta` with the name `referrer`, in tree order. -/
structure Declaration where
  header : Option Text
  metas : List Text

def lastNonEmpty (l : List Text) : Text := ((l.filter fun t => !t.isEmpty).getLast?).getD []

def Declaration.headerTokens (d : Declaration) : List Text :=
  (split (· == ',') (d.header.getD [])).map fun s => jsLower (jsTrim s)

/-- What the worker records when the document is loaded (`transformDocumentResponse`). -/
def Declaration.headerToken (d : Declaration) : Text := lastNonEmpty d.headerTokens

/-- What the page reads from the elements (`documentReferrerPolicy`). -/
def Declaration.metaToken (d : Declaration) : Text :=
  lastNonEmpty (d.metas.map fun v => jsLower (jsTrim v))

/-- The policy of the content of an element, with the words of older drafts. -/
def Policy.ofMeta (content : Text) : Option Policy :=
  let v := content.map Char.toLower
  if v = "never" then some .noReferrer
  else if v = "default" then some .default
  else if v = "always" then some .unsafeUrl
  else if v = "origin-when-crossorigin" then some .originWhenCrossOrigin
  else ofToken v

/-- The policy that the document declares: the last element that has one, or the last token of
    the header that is one. -/
def Declaration.policy (d : Declaration) : Policy := ((d.metas.filterMap ofMeta).getLast?.or
    (d.headerTokens.filterMap ofToken).getLast?).getD .default

end

section

open Http List Text
open Policy (ofToken)

/-! ## The policy -/

/-- A response with its header. -/
inductive Answer
  | redirect (header : Option Text)
  | document (header : Option Text)

namespace Answer

def header : Answer → Option Text
  | redirect h | document h => h

/-- What is read from the header; empty for nothing. -/
def said : Answer → Text
  | redirect h => h.getD []
  | document h => Declaration.headerToken ⟨h, []⟩

/-- What the worker keeps as the policy after a response. -/
def word (word : Text) (a : Answer) : Text := if a.said.isEmpty then word else a.said

/-- The tokens of the header. -/
def tokens (a : Answer) : List Text := Declaration.headerTokens ⟨a.header, []⟩

/-- The policy of the standard after a response: the last token that is one. -/
def policy (p : Policy) (a : Answer) : Policy := (a.tokens.filterMap ofToken).getLast?.getD p

/-- The header says nothing, or is read as a policy, or leaves the default. -/
def Heeded (word : Text) (a : Answer) : Prop :=
  a.said = [] ∨ (ofToken (jsLower a.said)).isSome ∨ a.policy (policyOf word) = .default

end Answer

open Answer

variable {a : Answer} {p : Policy} {t word : Text}

theorem chars_of_ofToken (h : ofToken t = some p) : isToken t ∧ 'k' ∉ t := by
  rw [ofToken] at h
  split_ifs at h with h1 h2 h3 h4 h5 h6 h7 h8
  exacts [h1 ▸ by decide, h2 ▸ by decide, h3 ▸ by decide, h4 ▸ by decide, h5 ▸ by decide,
    h6 ▸ by decide, h7 ▸ by decide, h8 ▸ by decide]

/-- The name of a policy, in any case, is a token. -/
theorem isToken_of_ofToken (h : ofToken (jsLower t) = some p) : isToken t := by
  obtain ⟨htoken, hk⟩ := chars_of_ofToken h
  obtain ⟨hne, hchars⟩ := chars_of_isToken htoken
  rw [isToken, Bool.and_eq_true, all_eq_true, Bool.not_eq_true', isEmpty_eq_false_iff]
  refine ⟨fun hnil => hne (by rw [hnil]; rfl), fun c hc => ?_⟩
  have hmem : ∀ d ∈ jsLowerChar c, d ∈ jsLower t := fun d hd => mem_flatMap.2 ⟨c, hc, hd⟩
  rw [jsLowerChar] at hmem
  split_ifs at hmem with hkelvin hdot
  · exact absurd (hmem _ mem_cons_self) hk
  · exact absurd (hchars _ (hmem _ (.tail _ (.head _)))) (by decide)
  have hlower := hchars _ (hmem _ (.head _))
  have hn := toNat_toLower c
  by_cases hupper : 0x41 ≤ c.toNat ∧ c.toNat ≤ 0x5a
  · simp [isTokenChar, isAsciiAlnum, isAsciiAlpha, hupper]
  · rw [if_neg hupper, Char.toNat_inj] at hn
    rwa [hn] at hlower

theorem toLower_of_mem_jsLower {c : Char} (h : c ∈ jsLower t) : c.toLower = c := by
  obtain ⟨d, -, hd⟩ := mem_flatMap.1 h
  rw [jsLowerChar] at hd
  split_ifs at hd
  · exact mem_singleton.1 hd ▸ by decide
  · rcases mem_cons.1 hd with rfl | hd
    · decide
    · exact mem_singleton.1 hd ▸ by decide
  · rw [mem_singleton.1 hd, toLower_toLower]

theorem filterMap_ofToken (l : List Text) :
    l.filterMap ofToken = (l.filter fun t => !t.isEmpty).filterMap ofToken := by
  rw [filterMap_filter]
  refine filterMap_congr fun t _ => ?_
  cases t with
  | nil | cons c t => rfl

/-- A header that says nothing or a policy says the same by the standard. -/
theorem getLast?_tokens (h : a.said = [] ∨ (ofToken (jsLower a.said)).isSome) :
    (a.tokens.filterMap ofToken).getLast? = ofToken (jsLower a.said) := by
  cases a with
  | redirect header =>
    rcases h with h | h
    · cases header with
      | none => rfl
      | some t => cases (show t = [] from h); rfl
    obtain ⟨p, hp⟩ := Option.isSome_iff_exists.1 h
    cases header with
    | none => cases hp
    | some t =>
      have htoken : isToken t := isToken_of_ofToken hp
      have hsplit : split (· == ',') t = [t] := by
        simpa using @split_intercalate [t] (by simpa using htoken) (cons_ne_nil _ _)
      have htokens : (redirect (some t)).tokens = [jsLower t] := by
        change (split (· == ',') t).map _ = _
        rw [hsplit, map_singleton, jsTrim_of_isToken htoken]
      rw [htokens, filterMap_cons, show ofToken (jsLower t) = some p from hp]
      exact hp.symm
  | document header =>
    have hsaid : (document header).said =
        (((document header).tokens.filter fun t => !t.isEmpty).getLast?).getD [] := rfl
    rw [filterMap_ofToken]
    rcases ((document header).tokens.filter fun t => !t.isEmpty).eq_nil_or_concat' with hl | ⟨l, t, hl⟩
    · rw [hsaid, hl]
      rfl
    have ht : t ∈ (document header).tokens.filter fun t => !t.isEmpty := by
      rw [hl]
      exact mem_append_right _ (.head _)
    obtain ⟨s, -, rfl⟩ := mem_map.1 (mem_of_mem_filter ht)
    rw [hl, getLast?_concat, Option.getD_some] at hsaid
    rw [hsaid] at h ⊢
    rcases h with h | h
    · rw [h] at ht
      cases (mem_filter.1 ht).2
    obtain ⟨p, hp⟩ := Option.isSome_iff_exists.1 h
    have hlow : jsLower (jsLower (jsTrim s)) = jsLower (jsTrim s) := by
      rw [jsLower_of_isToken (isToken_of_ofToken hp)]
      exact (map_congr_left fun _ => toLower_of_mem_jsLower).trans (map_id _)
    rw [hlow] at hp ⊢
    rw [hl, filterMap_append, filterMap_cons, hp]
    exact getLast?_concat

theorem policyOf_word_iff : policyOf (a.word word) = a.policy (policyOf word) ↔ a.Heeded word := by
  rw [Answer.word, Heeded, ← or_assoc]
  by_cases h : a.said = [] ∨ (ofToken (jsLower a.said)).isSome
  · refine iff_of_true ?_ (.inl h)
    rw [policy, getLast?_tokens h]
    by_cases hsaid : a.said = []
    · rw [hsaid]
      rfl
    · obtain ⟨p, hp⟩ := Option.isSome_iff_exists.1 (h.resolve_left hsaid)
      rw [if_neg fun h => hsaid (isEmpty_iff.1 h), policyOf, hp]
      rfl
  · rw [not_or, Option.not_isSome_iff_eq_none] at h
    rw [if_neg fun hnil => h.1 (isEmpty_iff.1 hnil), policyOf, h.2]
    simp [h.1, eq_comm]

/-! ## The address -/

/-- What a policy allows, by the standard, for a target that is of the same origin or not and
    that is less trustworthy than the source or not. -/
def Policy.allows (leaves same : Bool) : Policy → Level
  | noReferrer => .nothing
  | unsafeUrl => .full
  | origin => .origin
  | originWhenCrossOrigin => if same then .full else .origin
  | sameOrigin => if same then .full else .nothing
  | strictOrigin => if leaves then .nothing else .origin
  | noReferrerWhenDowngrade => if leaves then .nothing else .full
  | strictOriginWhenCrossOrigin => if same then .full else if leaves then .nothing else .origin

/-- A source and a target as `new URL` gives them. -/
structure Link (urls : Addresses) (base targetUrl : Text) where
  source : Address
  target : Address
  parse_base : urls.parse base = some source
  parse_target : urls.parse targetUrl = some target
  isHttp : source.isHttp
  bare_ne_nil : source.bare ≠ []
  protocol_eq : source.origin = target.origin → source.protocol = target.protocol

namespace Link

variable {urls : Addresses} {base targetUrl : Text} (link : Link urls base targetUrl)
  (trustworthy : Address → Bool)

/-- The request stays on its origin. -/
def same : Bool := link.source.origin == link.target.origin

/-- The source is potentially trustworthy and the target is not. -/
def leaves : Bool := trustworthy link.source && !trustworthy link.target

/-- What the standard tells: a long address as its origin. -/
def told : Level → Text
  | .nothing => []
  | .origin => link.source.origin ++ "/"
  | .full => if 4096 < link.source.bare.length then link.source.origin ++ "/" else link.source.bare

/-- The header under a policy. -/
def referer (p : Policy) : Text := link.told (p.allows (link.leaves trustworthy) link.same)

/-- The policy does not tell a downgrade from a loss of trustworthiness, and if it allows the
    whole address, that is short or only the origin. -/
def Ordinary (p : Policy) : Prop :=
  p.allows (downgrade link.source link.target) link.same =
      p.allows (link.leaves trustworthy) link.same ∧
    (p.allows (link.leaves trustworthy) link.same = .full →
      link.source.bare.length ≤ 4096 ∨ link.source.bare = link.source.origin ++ "/")

variable {link trustworthy}

theorem level_eq : p.level link.source link.target =
    p.allows (downgrade link.source link.target) link.same := by
  have hsame : link.same ↔ link.source.origin = link.target.origin := beq_iff_eq
  cases p with
  | strictOriginWhenCrossOrigin =>
    rw [Policy.level, Policy.allows, if_congr hsame rfl rfl]
    by_cases horigin : link.source.origin = link.target.origin
    · have hdown : downgrade link.source link.target = false := by
        rw [downgrade, link.protocol_eq horigin, Bool.and_eq_false_iff, beq_eq_false_iff_ne,
          beq_eq_false_iff_ne]
        by_contra h
        rw [not_or, not_not, not_not] at h
        exact absurd (h.1.symm.trans h.2) (by decide)
      rw [hdown, if_pos horigin, if_pos horigin]
      rfl
    · rw [if_neg horigin, if_neg horigin]
  | originWhenCrossOrigin | sameOrigin => exact if_congr hsame.symm rfl rfl
  | _ => rfl

theorem refererForPolicy_eq_iff : refererForPolicy urls base targetUrl word =
    link.referer trustworthy (policyOf word) ↔ link.Ordinary trustworthy (policyOf word) := by
  rw [refererForPolicy_eq link.parse_base link.parse_target link.isHttp, level_eq, referer, Ordinary]
  generalize downgrade link.source link.target = x, link.leaves trustworthy = y, link.same = z
  -- Two levels of a policy differ in that one of them is nothing.
  have hlevels : (policyOf word).allows x z = (policyOf word).allows y z ∨
      ((policyOf word).allows x z = .nothing ↔ (policyOf word).allows y z ≠ .nothing) := by
    cases policyOf word <;> cases x <;> cases y <;> cases z <;> simp [Policy.allows]
  generalize (policyOf word).allows x z = l, (policyOf word).allows y z = l' at *
  have hbare := link.bare_ne_nil
  have horigin : link.source.origin ++ "/".toList ≠ [] := by simp
  cases l <;> cases l' <;> simp only [Level.value, told]
  all_goals
    generalize link.source.origin ++ "/" = o at *
    grind

end Link

/-! ## The two policies -/

/-- What the worker keeps: the policy of the entry's document (`entry.referrerPolicy`) and that of
    the request under way (`context.referrerPolicy`). Empty: none. -/
structure Words where
  /-- Set by documents. -/
  entry : Text
  /-- Set by redirects. -/
  request : Text

/-- The policies of the standard for the document and for the request under way. -/
structure Policies where
  /-- That of the document. -/
  entry : Policy
  /-- That of the request. -/
  request : Policy

/-- What happens in an entry. -/
inductive Event
  /-- A request is made, with a policy of its own unless that is empty. -/
  | request (own : Text)
  /-- The first request of a site frame, which has the policy of its embedder. -/
  | frame (own : Text)
  /-- A response comes. -/
  | answer (a : Answer)

namespace Words

/-- The policies that the worker's words stand for. -/
def policies (w : Words) : Policies := ⟨policyOf w.entry, policyOf w.request⟩

/-- What the worker keeps after an event: a redirect's word is the request's and a document's is
    the entry's. -/
def step (w : Words) : Event → Words
  | .request own => { w with request := if own.isEmpty then w.entry else own }
  | .frame own => { w with request := own }
  | .answer (redirect h) => { w with request := (redirect h).word w.request }
  | .answer (document h) => { w with entry := (document h).word w.entry }

/-- A response is heeded where its policy is kept. -/
def Heeds (w : Words) : Event → Prop
  | .request _ | .frame _ => True
  | .answer (redirect h) => (redirect h).Heeded w.request
  | .answer (document h) => (document h).Heeded w.entry

end Words

/-- The policies of the standard after an event. -/
def Policies.step (p : Policies) : Event → Policies
  | .request own => { p with request := if own.isEmpty then p.entry else policyOf own }
  | .frame own => { p with request := policyOf own }
  | .answer (redirect h) => { p with request := (redirect h).policy p.request }
  | .answer (document h) => { p with entry := (document h).policy p.entry }

theorem policies_step_iff {w : Words} {e : Event} :
    (w.step e).policies = w.policies.step e ↔ w.Heeds e := by
  cases e with
  | request own =>
    refine iff_of_true ?_ trivial
    simp only [Words.step, Policies.step, Words.policies, apply_ite policyOf]
  | frame own => exact iff_of_true rfl trivial
  | answer a =>
    cases a with
    | redirect h => simp [Words.step, Policies.step, Words.policies, Words.Heeds, policyOf_word_iff]
    | document h => simp [Words.step, Policies.step, Words.policies, Words.Heeds, policyOf_word_iff]

/-- After every event the policies are those of the standard, and so is the `Referer` that the
    request under way has for a link, exactly if each response is heeded and the link is ordinary
    for the policies of the requests. -/
theorem referrer_policy_iff {urls : Addresses} {base targetUrl : Text}
    (link : Link urls base targetUrl) (trustworthy : Address → Bool) (w : Words)
    (es : List Event) :
    (∀ l, l <+: es → (l.foldl Words.step w).policies = l.foldl Policies.step w.policies ∧
      refererForPolicy urls base targetUrl (l.foldl Words.step w).request =
        link.referer trustworthy (l.foldl Policies.step w.policies).request) ↔
    (∀ l e, l ++ [e] <+: es → (l.foldl Words.step w).Heeds e) ∧
      ∀ l, l <+: es → link.Ordinary trustworthy (l.foldl Policies.step w.policies).request := by
  constructor
  · intro h
    refine ⟨fun l e hl => ?_, fun l hl => ?_⟩
    · have hstep := (h _ hl).1
      rw [foldl_concat, foldl_concat, ← (h l ((prefix_append _ _).trans hl)).1] at hstep
      exact policies_step_iff.1 hstep
    · obtain ⟨hp, hr⟩ := h l hl
      rw [← hp] at hr ⊢
      exact Link.refererForPolicy_eq_iff.1 hr
  rintro ⟨hheeded, hlink⟩ l hl
  have hp : (l.foldl Words.step w).policies = l.foldl Policies.step w.policies := by
    induction l using reverseRecOn with
    | nil => rfl
    | append_singleton l e ih =>
      rw [foldl_concat, foldl_concat, ← ih ((prefix_append _ _).trans hl)]
      exact policies_step_iff.2 (hheeded l e hl)
  refine ⟨hp, ?_⟩
  have ho := hlink l hl
  rw [← hp] at ho ⊢
  exact Link.refererForPolicy_eq_iff.2 ho

/-- A redirect asks for no referrer, after a word for older browsers. -/
theorem no_referrer_unheeded :
    let es := [.request [], .answer (redirect (some "unsafe-url, no-referrer"))]
    (es.foldl Words.step ⟨[], []⟩).policies.request = .strictOriginWhenCrossOrigin ∧
      (es.foldl Policies.step (Words.policies ⟨[], []⟩)).request = .noReferrer := by
  decide

end

section

open List Option Text

/-! ## The worker -/

/-- An entry of the history of a tab. -/
structure Entry where
  targetUrl : Text
  baseUrl : Text
  parentTargetUrl : Text
  frameRoute : Bool
  /-- Empty: none. -/
  referrerPolicy : Text

/-- The document is in a frame. -/
def Entry.framed (e : Entry) : Bool := e.frameRoute || !e.parentTargetUrl.isEmpty

/-- What a page reports to the worker. -/
inductive Message
  | history (entryId targetUrl baseUrl : Text)
  | base (entryId baseUrl : Text)
  | policy (entryId policy : Text)

/-- The state that the worker keeps of a tab. `client` is the entry of the document's client. -/
structure Tab where
  entries : Text → Option Entry
  activeEntryId : Text
  client : Text

namespace Tab

variable (urls : Addresses) (w : Tab)

/-- A record is set. -/
def set (entryId : Text) (e : Entry) : Tab :=
  { w with entries := fun k => if k = entryId then some e else w.entries k }

def named (entryId : Text) : Text := if entryId.isEmpty then w.activeEntryId else entryId

def policyTokens : List Text := ["", "no-referrer", "no-referrer-when-downgrade", "origin",
    "origin-when-cross-origin", "same-origin", "strict-origin",
    "strict-origin-when-cross-origin", "unsafe-url"]

/-- The base URL of a document. -/
def baseOf (base targetUrl : Text) : Option Text :=
  if base.isEmpty then some targetUrl else urls.canonical base (some targetUrl)

/-- A message is handled (`handleMessage`); `none` if it is refused or throws. -/
def handle : Message → Option Tab
  | .history entryId target base => do
    let targetUrl ← urls.canonical target none
    let baseUrl ← baseOf urls base targetUrl
    let prevEntry := w.entries entryId
    let callerEntry := w.entries w.client
    let isFrame := prevEntry.any Entry.framed || callerEntry.any Entry.framed
    let parentTargetUrl := match prevEntry.map Entry.parentTargetUrl with
      | some (c :: cs) => c :: cs
      | _ => (callerEntry.map Entry.parentTargetUrl).getD []
    let w' := w.set entryId ⟨targetUrl, baseUrl, parentTargetUrl, isFrame, []⟩
    some { w' with
      activeEntryId := if !isFrame || w.activeEntryId.isEmpty then entryId else w.activeEntryId }
  | .base entryId base => do
    let e ← w.entries (w.named entryId)
    let baseUrl ← urls.canonical base (some e.targetUrl)
    some { w.set (w.named entryId) { e with baseUrl } with client := w.named entryId }
  | .policy entryId policy => do
    let e ← w.entries (w.named entryId)
    let token := jsLower (jsTrim policy)
    if policyTokens.contains token then
      some (w.set (w.named entryId) { e with referrerPolicy := token })
    else some w

end Tab

open Tab

/-! ## The page -/

/-- What the membrane keeps of its document. -/
structure Page where
  activeEntryId : Text
  virtualURL : Text
  baseURL : Text
  explicitBaseURL : Bool
  /-- Empty: nothing was reported. -/
  lastReported : Text

/-- What the page does. -/
inductive Action
  /-- `pushState` or `replaceState`; `fresh` is the identifier that is drawn for a new entry. -/
  | state (url : Option Text) (replace : Bool) (fresh : Text)
  /-- The fragment is changed. -/
  | hash (raw : Text) (replace : Bool) (fresh : Text)
  /-- The base is changed. -/
  | base (raw : Text)
  /-- The elements `meta` are looked at. -/
  | report
  /-- The route of the oldest update was encrypted. -/
  | share
  /-- The worker handles the oldest message. -/
  | deliver

/-- The page, the worker, and what is on its way. -/
structure System where
  page : Page
  tab : Tab
  queue : List Message
  /-- Updates that wait for an encrypted route. -/
  shares : List Message

namespace Page

variable (urls : Addresses) (p : Page)

/-- `sameOriginHistoryURL`; `none` if it throws. -/
def sameOriginHistoryURL (url : Text) : Option Text := do
  let href ← urls.resolve url p.baseURL
  let parsed ← urls.parse href
  let doc ← urls.parse p.virtualURL
  if parsed.protocol = doc.protocol ∧ parsed.username = doc.username ∧
      parsed.password = doc.password ∧ parsed.host = doc.host then urls.target href p.baseURL
  else none

/-- The address that a history update leads to. -/
def nextURL : Option Text → Option Text
  | some url => p.sameOriginHistoryURL urls url
  | none => some p.virtualURL

/-- `commitVirtualHistory`, with the message that it sends. -/
def commitVirtualHistory (url : Option Text) (replace : Bool) (fresh : Text) :
    Option (Page × Message) := do
  let next ← p.nextURL urls url
  let entryId := if replace && !p.activeEntryId.isEmpty then p.activeEntryId else 'e' :: fresh
  let baseURL := if p.explicitBaseURL then p.baseURL else next
  some ({ p with virtualURL := next, baseURL, activeEntryId := entryId },
    .history entryId next baseURL)

def updateVirtualHash (raw : Text) (replace : Bool) (fresh : Text) : Option (Page × Message) :=
  let hash := if raw.isEmpty || raw.head? == some '#' then raw else '#' :: raw
  let next := urls.withHash p.virtualURL hash
  if next = p.virtualURL then none else p.commitVirtualHistory urls (some next) replace fresh

def updateVirtualBase (raw : Text) : Option (Page × Message) := do
  let next ← urls.target raw p.baseURL
  some ({ p with baseURL := next, explicitBaseURL := true }, .base p.activeEntryId next)

def reportMetaReferrerPolicy (d : Declaration) : Option (Page × Message) :=
  let policy := d.metaToken
  if policy.isEmpty || policy == p.lastReported then none
  else some ({ p with lastReported := policy }, .policy p.activeEntryId policy)

end Page

/-! ## Runs -/

/-- A document that is loaded into an entry. -/
structure Document extends Declaration where
  /-- The entry's identifier. -/
  entryId : Text
  entryId_ne_nil : entryId ≠ []
  /-- The entry that is shown. -/
  activeEntryId : Text
  /-- The record of the entry before the response, of an earlier load if there was one. -/
  entry : Entry
  /-- The document's address. -/
  virtualURL : Text
  /-- Its base. -/
  baseURL : Text

/-- The policy that the worker records at the load: the token of the header, and if there is none
    what the record had before. -/
def Document.recorded (doc : Document) : Text :=
  if doc.headerToken.isEmpty then doc.entry.referrerPolicy else doc.headerToken

namespace System

variable (urls : Addresses) (d : Declaration) (s : System)

/-- The page sends a message, if it does anything. -/
def sends (out : Option (Page × Message)) : System :=
  match out with
  | none => s
  | some (page, m) => { s with page, queue := s.queue ++ [m] }

/-- An update, which is sent again when its route is encrypted (`refreshVisibleShareRoute`). -/
def updates (out : Option (Page × Message)) : System :=
  match out with
  | none => s
  | some (page, m) => { s with page, queue := s.queue ++ [m], shares := s.shares ++ [m] }

def step : Action → System
  | .state url replace fresh => s.updates (s.page.commitVirtualHistory urls url replace fresh)
  | .hash raw replace fresh => s.updates (s.page.updateVirtualHash urls raw replace fresh)
  | .base raw => s.sends (s.page.updateVirtualBase urls raw)
  | .report => s.sends (s.page.reportMetaReferrerPolicy d)
  | .share =>
    match s.shares with
    | [] => s
    | m :: shares => { s with shares, queue := s.queue ++ [m] }
  | .deliver =>
    match s.queue with
    | [] => s
    | m :: queue => { s with queue, tab := (s.tab.handle urls m).getD s.tab }

def run (as : List Action) : System := as.foldl (step urls d) s

/-- The message that the worker handles in a step, if it does. -/
def handles : Action → List Message
  | .deliver =>
    match s.queue with
    | [] => []
    | m :: _ => if (s.tab.handle urls m).isSome then [m] else []
  | _ => []

/-- The messages that the worker handles in a run, oldest first. -/
def handled (s : System) : List Action → List Message
  | [] => []
  | a :: as => s.handles urls a ++ (s.step urls d a).handled as

end System

open Referrer.System

/-! ## Requests -/

/-- A `fetch` or an `XMLHttpRequest` of the page that names no policy. -/
structure Call where
  target : Text
  /-- A synchronous `XMLHttpRequest`. -/
  sync : Bool
  /-- The referrer that the call gives; `none` for that of the document. -/
  referrer : Option Text

/-- What the page gives to the worker. -/
structure Request extends Call where
  entryId : Text
  documentURL : Text
  /-- Empty: none. -/
  policy : Text

/-- Two addresses are of one origin. -/
def sameOrigin (urls : Addresses) (url url' : Text) : Bool :=
  match urls.parse url, urls.parse url' with
  | some a, some b => a.origin == b.origin
  | _, _ => false

/-- The address that a call comes from: the document's, or the one that it gives if that is of the
    same origin. A call that gives an empty one has none. -/
def Page.source (urls : Addresses) (p : Page) (c : Call) : Option Text :=
  match if c.sync then none else c.referrer with
  | none => some p.virtualURL
  | some explicit =>
    if explicit.isEmpty then none
    else if sameOrigin urls explicit p.virtualURL then some explicit else some p.virtualURL

/-- The request of a call. A synchronous request has no policy with it, and no referrer. -/
def Page.request (p : Page) (d : Declaration) (c : Call) : Request where
  target := c.target
  sync := c.sync
  referrer := if c.sync then none else c.referrer
  entryId := p.activeEntryId
  documentURL := p.virtualURL
  policy := if c.sync then [] else d.metaToken

namespace Tab

variable (urls : Addresses) (w : Tab) (r : Request)

/-- The entry of a request (`runtimeAPI`, `handleSyncFetchJob`). -/
def entryOf : Text :=
  if r.sync then w.named r.entryId
  else if (w.entries r.entryId).isSome then r.entryId
  else w.named w.client

/-- `context.documentUrl`. -/
def documentUrl : Text := ((w.entries (w.entryOf r)).map Entry.targetUrl).getD r.target

/-- `context.referrerPolicy`. -/
def referrerPolicy : Text :=
  if !r.policy.isEmpty then r.policy
  else ((w.entries (w.entryOf r)).map Entry.referrerPolicy).getD []

end Tab

/-! ## The policy that is kept -/

/-- What a message that was handled leaves of the policy of an entry. -/
def Message.word (entryId token : Text) : Message → Text
  | .history e _ _ => if e = entryId then [] else token
  | .base _ _ => token
  | .policy e declared =>
    if e = entryId ∧ policyTokens.contains (jsLower (jsTrim declared)) then
      jsLower (jsTrim declared)
    else token

/-- The policy of an entry after messages were handled. -/
def kept (doc : Document) (entryId : Text) (handled : List Message) : Text :=
  handled.foldl (Message.word entryId) (if entryId = doc.entryId then doc.recorded else [])

/-- The message names its entry. -/
def Message.names : Message → Prop
  | .history e _ _ | .base e _ | .policy e _ => e ≠ []

/-- All messages name an entry. -/
structure Named (s : System) : Prop where
  active : s.page.activeEntryId ≠ []
  queue : ∀ m ∈ s.queue, m.names
  shares : ∀ m ∈ s.shares, m.names

section

variable {urls : Addresses} {d : Declaration} {s : System}

theorem named_commit {p p' : Page} {m : Message} {url : Option Text} {replace : Bool} {fresh : Text}
    (h : p.commitVirtualHistory urls url replace fresh = some (p', m)) :
    p'.activeEntryId ≠ [] ∧ m.names := by
  have hid : (if replace && !p.activeEntryId.isEmpty then p.activeEntryId else 'e' :: fresh) ≠ [] := by
    split_ifs with hold
    · rw [Bool.and_eq_true, Bool.not_eq_true', isEmpty_eq_false_iff] at hold
      exact hold.2
    · exact cons_ne_nil _ _
  obtain ⟨next, -, hout⟩ := bind_eq_some_iff.1 h
  cases hout
  exact ⟨hid, hid⟩

theorem Named.updates (h : Named s) {out : Option (Page × Message)}
    (hout : ∀ p' m, out = some (p', m) → p'.activeEntryId ≠ [] ∧ m.names) :
    Named (s.updates out) := by
  cases out with
  | none => exact h
  | some o =>
    obtain ⟨hactive, hm⟩ := hout o.1 o.2 rfl
    refine ⟨hactive, fun m' hm' => ?_, fun m' hm' => ?_⟩
    · rcases mem_append.1 hm' with hm' | hm'
      · exact h.queue m' hm'
      · rwa [mem_singleton.1 hm']
    · rcases mem_append.1 hm' with hm' | hm'
      · exact h.shares m' hm'
      · rwa [mem_singleton.1 hm']

theorem Named.sends (h : Named s) {out : Option (Page × Message)}
    (hout : ∀ p' m, out = some (p', m) → p'.activeEntryId ≠ [] ∧ m.names) : Named (s.sends out) := by
  cases out with
  | none => exact h
  | some o =>
    have hboth := h.updates hout
    exact ⟨hboth.active, hboth.queue, h.shares⟩

theorem Named.step (h : Named s) (a : Action) : Named (s.step urls d a) := by
  cases a with
  | state url replace fresh => exact h.updates fun p' m hout => named_commit hout
  | hash raw replace fresh =>
    refine h.updates fun p' m hout => ?_
    rw [Page.updateVirtualHash] at hout
    split_ifs at hout <;> exact named_commit hout
  | base raw =>
    refine h.sends fun p' m hout => ?_
    obtain ⟨next, -, hout⟩ := bind_eq_some_iff.1 hout
    cases hout
    exact ⟨h.active, h.active⟩
  | report =>
    refine h.sends fun p' m hout => ?_
    rw [Page.reportMetaReferrerPolicy] at hout
    split_ifs at hout
    cases hout
    exact ⟨h.active, h.active⟩
  | share =>
    rw [System.step]
    cases hshares : s.shares with
    | nil => exact h
    | cons m shares =>
      have hmem : ∀ m' ∈ m :: shares, m'.names := hshares ▸ h.shares
      refine ⟨h.active, fun m' hm' => ?_, fun m' hm' => hmem m' (.tail _ hm')⟩
      rcases mem_append.1 hm' with hm' | hm'
      · exact h.queue m' hm'
      · rw [mem_singleton.1 hm']
        exact hmem m (.head _)
  | deliver =>
    rw [System.step]
    cases hqueue : s.queue with
    | nil => exact h
    | cons m queue =>
      have hmem : ∀ m' ∈ m :: queue, m'.names := hqueue ▸ h.queue
      exact ⟨h.active, fun m' hm' => hmem m' (.tail _ hm'), h.shares⟩

end

section

variable (urls : Addresses) (doc : Document) (as as' : List Action) (c : Call)

end

/-! ## A policy that is lost -/

def twoSites : Addresses where
  parse t := if t = "https://b.test/" then
      some ⟨"https:", [], [], "b.test", "https://b.test", t⟩
    else some ⟨"https:", [], [], "a.test", "https://a.test", t⟩
  resolve raw _ := some raw
  canonical raw _ := some raw
  target raw _ := some raw
  withHash t hash := t ++ hash

end

end ZeroProxy.Worker.Referrer
