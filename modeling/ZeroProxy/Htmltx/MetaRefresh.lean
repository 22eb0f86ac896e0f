import ZeroProxy.Html.Refresh
import ZeroProxy.Htmltx.Attributes

/-!
# Rewritten refreshes

Both rewriters of refreshes, that of the transformer and that of the worker, look for the first
`url=` in a value and put an address of the proxy in place of what follows it. Where a browser
looks for the URL is not considered.

The transformer reads the `content` of a refreshing `<meta>` tag as it stands in the markup,
references and all, and writes it back with its double quotes escaped. A browser decodes it first.
-/

namespace ZeroProxy.Htmltx

open Bool Html List Option Text

def mark : Text := "url="

/-- A reference to the document itself. -/
def Stays (s : Text) : Prop :=
  (s.dropWhile isC0OrSpace).head? = none ∨ (s.dropWhile isC0OrSpace).head? = some '#'

/-- A place in which a refresh is written. -/
structure RefreshRule where
  /-- The value a browser reads, given what is emitted. -/
  read : Text → Text
  /-- What is emitted for a rewritten value. -/
  write : Text → Text
  /-- The target of what follows the mark, unless it is rejected. -/
  target : Text → Option Text
  /-- The address of a target. -/
  address : Text → Text
  /-- A rejected refresh is dropped, and not left as it is. -/
  drops : Bool

namespace RefreshRule

variable (ρ : RefreshRule) (resolve : Text → Option Text)

def firstMark (w : Text) : Option Nat := find mark (w.map Char.toLower)

def emitted (w : Text) : Option Text :=
  match firstMark w with
  | none => some w
  | some i =>
    match ρ.target (w.drop (i + 4)) with
    | none => if ρ.drops then none else some w
    | some x => some (ρ.write (w.take i ++ (mark ++ ρ.address x)))

/-- The rule applied to what it has emitted: an address is the target of another one. -/
def twice : RefreshRule :=
  { ρ with target := fun raw => (ρ.target raw).bind fun x => ρ.target (ρ.address x) }

/-- What a rewriter has to know of browsers and its addresses: a mark is read as it stands,
    whatever comes before it; an address begins like a URL and has no mark in it. -/
structure Lawful : Prop where
  reads : ∀ {w : Text} {i : Nat}, firstMark w = some i → ∃ y, ρ.read w = y ++ ρ.read (w.drop i) ∧
    IsMark (ρ.read (w.drop i)) ∧
      ∀ x, ρ.read (ρ.write (w.take i ++ (mark ++ ρ.address x))) = y ++ (mark ++ ρ.address x)
  head : ∀ x, ∃ c t, ρ.address x = c :: t ∧ isC0OrSpace c = false ∧ c ≠ '#' ∧ isQuote c = false
  unmarked : ∀ {x a v : Text}, ρ.address x = a ++ v → ¬ IsMark v

/-- The URL `s` is the address of a URL with the target `t`. -/
def Reaches (s t : Text) : Prop := ∃ x, s = ρ.address x ∧ resolve x = some t

/-- The URL `s'` is as good as `s`, whose target is `t`: both refer to the document itself, or
    `s'` is an address of the target. -/
def Serves (s t s' : Text) : Prop := (Stays s ∧ Stays s') ∨ ρ.Reaches resolve s' t

/-- The refresh navigates to the proxied address of its target, if at all. -/
def Contained (w : Text) : Prop :=
  ∀ s t, refreshUrl (ρ.read w) = some s → resolve s = some t →
    ∀ e, ρ.emitted w = some e → ∀ s', refreshUrl (ρ.read e) = some s' → ρ.Serves resolve s t s'

/-- The first mark comes where a browser looks for it, and introduces the target `x`. -/
def Rewrites (w x : Text) : Prop :=
  ∃ i, firstMark w = some i ∧ afterTime (ρ.read w) = some (ρ.read (w.drop i)) ∧
    ρ.target (w.drop (i + 4)) = some x

def Rejects (w : Text) : Prop := ∃ i, firstMark w = some i ∧ ρ.target (w.drop (i + 4)) = none

/-- The target is the one a browser reads; or the refresh is dropped; or its URL is not
    rewritten, and needed no rewriting. -/
def Faithful (w : Text) : Prop :=
  ∀ s t, refreshUrl (ρ.read w) = some s → resolve s = some t →
    (∃ x, ρ.Rewrites w x ∧ ρ.Reaches resolve (ρ.address x) t) ∨ (ρ.drops ∧ ρ.Rejects w) ∨
      ((∀ x, ¬ ρ.Rewrites w x) ∧ ρ.Serves resolve s t s)

end RefreshRule

/-! ## The first mark -/

theorem startsWithCI_eq_isPrefixOf {s p : Text} (hp : p.map Char.toLower = p) :
    startsWithCI s p = p.isPrefixOf (s.map Char.toLower) := by
  induction p generalizing s with
  | nil => rw [startsWithCI_nil]; rfl
  | cons d p ih =>
    rw [map_cons] at hp
    obtain ⟨hd, hp⟩ := cons.inj hp
    cases s with
    | nil => rfl
    | cons c s =>
      rw [cons_startsWithCI_cons, map_cons, isPrefixOf_cons_cons, ih hp, hd, beq_comm]

theorem isMark_iff {s : Text} : IsMark s ↔ mark.isPrefixOf (s.map Char.toLower) := by
  have hm : mark.map Char.toLower = mark := by decide
  rw [IsMark, ← mark, startsWithCI_eq_isPrefixOf hm]

theorem isPrefixOf_of_find {p s : Text} {i : Nat} (h : find p s = some i) :
    p.isPrefixOf (s.drop i) := by
  induction s generalizing i with
  | nil =>
    rw [find] at h
    split_ifs at h with hp
    rw [isEmpty_iff.1 hp]
    rfl
  | cons c s ih =>
    rw [find] at h
    split_ifs at h with hp
    · cases h
      exact hp
    · obtain ⟨j, hj, rfl⟩ := map_eq_some_iff.1 h
      exact ih hj

theorem isMark_of_firstMark {w : Text} {i : Nat} (h : RefreshRule.firstMark w = some i) :
    IsMark (w.drop i) := by
  rw [isMark_iff, map_drop]
  exact isPrefixOf_of_find h

theorem isMark_mark_append (v : Text) : IsMark (mark ++ v) :=
  startsWithCI_append (show startsWithCI mark mark from by decide) v

/-! ## Where the mark is read -/

theorem toNat_of_toLower_eq_u {c : Char} (h : c.toLower = 'u') : c.toNat = 0x75 ∨ c.toNat = 0x55 := by
  have hn := toNat_toLower c
  rw [h, show 'u'.toNat = 0x75 from rfl] at hn
  split_ifs at hn <;> omega

theorem not_isLeadChar_of_toLower_eq_u {c : Char} (h : c.toLower = 'u') : isLeadChar c = false := by
  rcases toNat_of_toLower_eq_u h with h | h
  · rw [Char.toNat_inj.1 (show c.toNat = 'u'.toNat from h)]
    decide
  · rw [Char.toNat_inj.1 (show c.toNat = 'U'.toNat from h)]
    decide

theorem exists_of_mark_append {l y z r : Text} (hl : ∀ c ∈ l, isLeadChar c) (hz : IsMark z)
    (h : l ++ r = y ++ z) : ∃ k, y = l ++ k ∧ r = k ++ z := by
  rcases append_eq_append_iff.1 h with ⟨k, hy, hr⟩ | ⟨k, hlk, hzk⟩
  · exact ⟨k, hy, hr⟩
  cases k with
  | nil => exact ⟨[], by rw [hlk, append_nil, append_nil], hzk.symm⟩
  | cons c k =>
    obtain ⟨u, t, hu, hlow⟩ := hz.exists_cons
    rw [hzk] at hu
    have hc := hl c (hlk ▸ mem_append_right _ (.head _))
    rw [(cons.inj hu).1, not_isLeadChar_of_toLower_eq_u hlow] at hc
    cases hc

theorem stays_congr {s s' : Text} (h : AlikeToMark s s') : Stays s ↔ Stays s' := by
  rcases h with rfl | ⟨x, v, v', rfl, rfl, hv, hv'⟩
  · rfl
  have hu {v : Text} (hv : IsMark v) : ∃ c t, v = c :: t ∧ isC0OrSpace c = false ∧ c ≠ '#' := by
    obtain ⟨c, t, rfl, hc⟩ := hv.exists_cons
    refine ⟨c, t, rfl, ?_, ?_⟩
    · rw [isC0OrSpace, decide_eq_false_iff_not]
      have := toNat_of_toLower_eq_u hc
      omega
    · rintro rfl
      exact absurd hc (by decide)
  obtain ⟨c, t, rfl, hc, hch⟩ := hu hv
  obtain ⟨d, t', rfl, hd, hdh⟩ := hu hv'
  -- The first character that counts is one of `x`, or that of a mark.
  induction x with
  | nil =>
    rw [Stays, Stays, nil_append, nil_append, dropWhile_cons_of_neg (eq_false_iff.1 hc),
      dropWhile_cons_of_neg (eq_false_iff.1 hd)]
    simp [hch, hdh]
  | cons a x ih =>
    by_cases ha : isC0OrSpace a
    · rw [Stays, Stays, cons_append, cons_append, dropWhile_cons_of_pos ha,
        dropWhile_cons_of_pos ha]
      exact ih
    · rw [Stays, Stays, cons_append, cons_append, dropWhile_cons_of_neg ha,
        dropWhile_cons_of_neg ha]
      rfl

theorem canFollow_mark (a : Char) (v : Text) : CanFollow a (mark ++ v) :=
  ⟨'u', "rl=" ++ v, rfl, by decide, fun h => absurd h (by decide)⟩

theorem refreshUrl_eq_some {c s : Text} (h : refreshUrl c = some s) :
    ∃ a r, afterTime c = some (a :: r) ∧ s = urlString (a :: r) := by
  rw [refreshUrl] at h
  split at h
  · next a r ha => exact ⟨a, r, ha, (some.inj h).symm⟩
  · cases h

theorem refreshUrl_of_afterTime {c r : Text} (h : afterTime c = some r) (hr : r ≠ []) :
    refreshUrl c = some (urlString r) := by
  obtain ⟨a, t, rfl⟩ := exists_cons_of_ne_nil hr
  rw [refreshUrl, h]

namespace RefreshRule

variable {ρ : RefreshRule} {resolve : Text → Option Text}

namespace Lawful

variable (h : ρ.Lawful)

include h

theorem not_stays_address (x : Text) : ¬ Stays (ρ.address x) := by
  obtain ⟨c, t, hx, hc, hhash, _⟩ := h.head x
  rw [Stays, hx, dropWhile_cons_of_neg (eq_false_iff.1 hc)]
  rintro (hn | hn)
  · cases hn
  · exact hhash (some.inj hn)

theorem urlString_address (x : Text) : urlString (mark ++ ρ.address x) = ρ.address x := by
  obtain ⟨c, t, hx, hc, _, hquote⟩ := h.head x
  have hws : isAsciiWhitespace c = false := by
    refine eq_false_iff.2 fun hws => ?_
    rw [isAsciiWhitespace] at hws
    simp only [or_eq_true, beq_iff_eq] at hws
    rcases hws with (((rfl | rfl) | rfl) | rfl) | rfl <;> cases hc
  have hurl : startsWithCI (mark ++ ρ.address x) "url" :=
    startsWithCI_append (show startsWithCI mark "url" from by decide) _
  have heq : skipWhitespace ((mark ++ ρ.address x).drop 3) = '=' :: ρ.address x :=
    dropWhile_cons_of_neg (by decide)
  rw [urlString_of_mark hurl heq, hx, skipWhitespace,
    dropWhile_cons_of_neg (eq_false_iff.1 hws), unquoted, hquote]
  rfl

theorem serves_congr {s s' t : Text} (hs : AlikeToMark s s') :
    ρ.Serves resolve s t s' ↔ ρ.Serves resolve s t s := by
  have hstays := stays_congr hs
  rw [Serves, Serves, ← hstays]
  rcases hs with rfl | ⟨x, v, v', rfl, rfl, hv, hv'⟩
  · rfl
  · have hno {v : Text} (hv : IsMark v) : ¬ ρ.Reaches resolve (x ++ v) t := by
      rintro ⟨y, hy, _⟩
      exact h.unmarked hy.symm hv
    rw [or_iff_left (hno hv), or_iff_left (hno hv')]

theorem refreshUrl_rewritten {w s x : Text} {i : Nat} (hi : firstMark w = some i)
    (hs : refreshUrl (ρ.read w) = some s) :
    let e := ρ.write (w.take i ++ (mark ++ ρ.address x))
    (afterTime (ρ.read w) = some (ρ.read (w.drop i)) ∧ refreshUrl (ρ.read e) = some (ρ.address x)) ∨
    (afterTime (ρ.read w) ≠ some (ρ.read (w.drop i)) ∧
      ∃ s', refreshUrl (ρ.read e) = some s' ∧ AlikeToMark s s') := by
  obtain ⟨y, hread, hmark, hwrite⟩ := h.reads hi
  obtain ⟨a, r, htime, rfl⟩ := refreshUrl_eq_some hs
  obtain ⟨l, hl, hlead, hws, hfollow⟩ := afterTime_spec htime
  obtain ⟨k, rfl, hk⟩ := exists_of_mark_append hlead hmark (hl.symm.trans hread)
  dsimp only
  rw [hwrite x, append_assoc]
  cases k with
  | nil =>
    left
    rw [htime, hk, nil_append, nil_append]
    refine ⟨rfl, ?_⟩
    have hne : mark ++ ρ.address x ≠ [] := append_ne_nil_of_left_ne_nil (by decide) _
    rw [refreshUrl_of_afterTime (hfollow _ (canFollow_mark a (ρ.address x))) hne,
      h.urlString_address x]
  | cons b k =>
    right
    obtain ⟨rfl, hr⟩ := cons.inj hk
    refine ⟨?_, _, refreshUrl_of_afterTime (hfollow _ ⟨a, _, rfl, hws, fun ha => ha⟩)
      (cons_ne_nil _ _), ?_⟩
    · -- Something stands between the time and the mark.
      rw [htime, hk]
      intro heq
      have := congrArg length (some.inj heq)
      rw [length_append, length_cons] at this
      omega
    · rw [hk]
      exact urlString_decoy hmark (isMark_mark_append _) (cons_ne_nil a k)

/-- The refreshes that are contained are those whose first mark is where a browser looks for it
    and whose target is read as a browser does, or that are dropped, or that needed no
    rewriting. -/
theorem contained_iff (w : Text) : ρ.Contained resolve w ↔ ρ.Faithful resolve w := by
  refine forall₂_congr fun s t => forall₂_congr fun hs _ => ?_
  -- What is emitted is read in one way.
  have hone {e s' : Text} (he : ρ.emitted w = some e) (hs' : refreshUrl (ρ.read e) = some s') :
      (∀ e, ρ.emitted w = some e → ∀ s', refreshUrl (ρ.read e) = some s' → ρ.Serves resolve s t s') ↔
        ρ.Serves resolve s t s' := by
    simp [he, hs']
  have hkept (hno : ∀ x, ¬ ρ.Rewrites w x) (hrej : ¬ (ρ.drops ∧ ρ.Rejects w)) :
      ((∃ x, ρ.Rewrites w x ∧ ρ.Reaches resolve (ρ.address x) t) ∨ (ρ.drops ∧ ρ.Rejects w) ∨
        ((∀ x, ¬ ρ.Rewrites w x) ∧ ρ.Serves resolve s t s)) ↔ ρ.Serves resolve s t s := by
    rw [or_iff_right fun ⟨x, hx, _⟩ => hno x hx, or_iff_right hrej, and_iff_right hno]
  cases hi : firstMark w with
  | none =>
    have hnone {P : Nat → Prop} : ¬ ∃ i, firstMark w = some i ∧ P i := by
      rintro ⟨i, hj, _⟩
      cases hi.symm.trans hj
    rw [hone (by rw [emitted, hi]) hs, hkept (fun _ => hnone) fun hrej => hnone hrej.2]
  | some i =>
    have hfirst {P : Nat → Prop} : (∃ j, firstMark w = some j ∧ P j) ↔ P i := by
      simp [hi]
    have hrewrites (x : Text) : ρ.Rewrites w x ↔ afterTime (ρ.read w) = some (ρ.read (w.drop i)) ∧
        ρ.target (w.drop (i + 4)) = some x := hfirst
    have hrejects : ρ.Rejects w ↔ ρ.target (w.drop (i + 4)) = none := hfirst
    cases hx : ρ.target (w.drop (i + 4)) with
    | none =>
      have he : ρ.emitted w = if ρ.drops then none else some w := by
        rw [emitted, hi]
        dsimp only
        rw [hx]
      by_cases hd : ρ.drops
      · rw [if_pos hd] at he
        exact iff_of_true (fun e he' => nomatch he.symm.trans he') (.inr (.inl ⟨hd, hrejects.2 hx⟩))
      · rw [if_neg hd] at he
        rw [hone he hs, hkept (fun x hr => nomatch hx.symm.trans ((hrewrites x).1 hr).2)
          fun hrej => hd hrej.1]
    | some x =>
      have he : ρ.emitted w = some (ρ.write (w.take i ++ (mark ++ ρ.address x))) := by
        rw [emitted, hi]
        dsimp only
        rw [hx]
      have hnorej : ¬ ρ.Rejects w := fun hrej => nomatch hx.symm.trans (hrejects.1 hrej)
      rcases h.refreshUrl_rewritten (x := x) hi hs with ⟨hplace, hs'⟩ | ⟨hplace, s', hs', halike⟩
      · have hrew (z : Text) : ρ.Rewrites w z ↔ x = z := by
          rw [hrewrites, hx, and_iff_right hplace, some.injEq]
        rw [hone he hs', Serves, or_iff_right fun hs => h.not_stays_address x hs.2]
        constructor
        · exact fun hreach => .inl ⟨x, (hrew x).2 rfl, hreach⟩
        · rintro (⟨z, hz, hreach⟩ | ⟨_, hrej⟩ | ⟨hno, _⟩)
          · exact (hrew z).1 hz ▸ hreach
          · exact absurd hrej hnorej
          · exact absurd ((hrew x).2 rfl) (hno x)
      · rw [hone he hs', h.serves_congr halike, hkept
          (fun z hz => hplace ((hrewrites z).1 hz).1) fun hrej => hnorej hrej.2]

theorem twice : ρ.twice.Lawful := ⟨h.reads, h.head, h.unmarked⟩

end Lawful

/-! ### Two passes -/

/-- The text before the first mark has no other one, whatever follows the mark. -/
theorem find_mark_rewritten {s : Text} {i : Nat} (h : find mark s = some i) (v : Text) :
    find mark (s.take i ++ (mark ++ v)) = some i := by
  induction s generalizing i with
  | nil => cases h
  | cons c s ih =>
    rw [find] at h
    split_ifs at h with hp
    · cases h
      rfl
    obtain ⟨j, hj, rfl⟩ := map_eq_some_iff.1 h
    rw [take_succ_cons, cons_append, find, ih hj, if_neg]
    · rfl
    -- A mark that begins before the kept one would overlap it, and the others of its characters
    -- are not its first.
    rcases s with _ | ⟨c₁, _ | ⟨c₂, _ | ⟨c₃, s⟩⟩⟩ <;> rcases j with _ | _ | _ | j <;>
      simp_all [mark, isPrefixOf]
    exact hp

theorem firstMark_rewritten {w : Text} {i : Nat} (hi : firstMark w = some i) (v : Text) :
    firstMark (w.take i ++ (mark ++ v)) = some i := by
  have hmark : mark.map Char.toLower = mark := by decide
  rw [firstMark, map_append, map_append, hmark, map_take]
  exact find_mark_rewritten hi _

/-- What is emitted is the value, or its beginning with an address. -/
theorem emitted_cases {w e : Text} (h : ρ.emitted w = some e) :
    e = w ∨ ∃ i x, e = ρ.write (w.take i ++ (mark ++ ρ.address x)) := by
  rw [emitted] at h
  split at h
  · exact .inl (some.inj h).symm
  split at h
  · split_ifs at h
    exact .inl (some.inj h).symm
  · exact .inr ⟨_, _, (some.inj h).symm⟩

/-- A rule that drops what it rejects, applied twice, is the rule with two targets. -/
theorem emitted_twice (hdrops : ρ.drops) (hwrite : ρ.write = id) (w : Text) :
    (ρ.emitted w).bind ρ.emitted = ρ.twice.emitted w := by
  cases hi : firstMark w with
  | none =>
    have hkept (ρ : RefreshRule) : ρ.emitted w = some w := by rw [emitted, hi]
    rw [hkept, hkept]
    exact hkept ρ
  | some i =>
    have hlength : (w.take i).length = i := by
      refine length_take_of_le (le_of_lt ?_)
      obtain ⟨c, t, ht, -⟩ := exists_cons_of_startsWithCI (isMark_of_firstMark hi)
      have := congrArg length ht
      rw [length_drop, length_cons] at this
      omega
    have hemitted (ρ : RefreshRule) : ρ.emitted w = match ρ.target (w.drop (i + 4)) with
        | none => if ρ.drops then none else some w
        | some x => some (ρ.write (w.take i ++ (mark ++ ρ.address x))) := by
      rw [emitted, hi]
    rw [hemitted, hemitted]
    change _ = match (ρ.target (w.drop (i + 4))).bind fun x => ρ.target (ρ.address x) with
        | none => if ρ.drops then none else some w
        | some x => some (ρ.write (w.take i ++ (mark ++ ρ.address x)))
    rw [hdrops, hwrite]
    cases ρ.target (w.drop (i + 4)) with
    | none => rfl
    | some x =>
      have htake : (w.take i ++ (mark ++ ρ.address x)).take i = w.take i := by
        rw [take_append_of_le_length hlength.ge, take_take, min_self]
      have hdrop : (w.take i ++ (mark ++ ρ.address x)).drop (i + 4) = ρ.address x := by
        rw [← append_assoc]
        exact drop_left' (by rw [length_append, hlength]; rfl)
      change ρ.emitted (w.take i ++ (mark ++ ρ.address x)) = _
      rw [emitted, firstMark_rewritten hi]
      dsimp only
      rw [hdrop, htake, hdrops, hwrite]
      rfl

end RefreshRule

end ZeroProxy.Htmltx

namespace ZeroProxy.Htmltx

open Html List Option Text

/-! ## References before a mark -/

def escapedHead (d : Char) : Char := if d = '"' then '&' else d

theorem exists_escapeDoubleQuotes_cons (d : Char) (s : Text) :
    ∃ t, escapeDoubleQuotes (d :: s) = escapedHead d :: t := by
  rw [escapeDoubleQuotes, flatMap_cons, escapedHead]
  split_ifs
  · exact ⟨_, rfl⟩
  · exact ⟨_, rfl⟩

theorem escapeDoubleQuotes_append (s t : Text) :
    escapeDoubleQuotes (s ++ t) = escapeDoubleQuotes s ++ escapeDoubleQuotes t :=
  flatMap_append

/-- A resolver sees no more of a text before a mark than its part before the next double
    quote, and takes up no double quote. -/
def Local (ref : Resolver) : Prop :=
  ∀ h r r', IsMark r → IsMark r' → ref (h ++ r) = ref (escapeDoubleQuotes h ++ r') ∧
    ∀ t n, ref (h ++ r) = some (t, n) → n ≤ h.length ∧ '"' ∉ h.take n

theorem take_run {q h : Text} {d : Char} {n : Nat} (hq : '"' ∉ q)
    (hn : n ≤ q.length + if d = ';' then 1 else 0) :
    n ≤ (q ++ d :: h).length ∧ '"' ∉ (q ++ d :: h).take n := by
  split_ifs at hn with hd
  · subst hd
    refine ⟨by rw [length_append, length_cons]; omega, fun hmem => ?_⟩
    have hsplit : q ++ ';' :: h = (q ++ [';']) ++ h := by rw [append_assoc]; rfl
    have hlen : n ≤ (q ++ [';']).length := by rw [length_append]; exact hn
    rw [hsplit, take_append_of_le_length hlen] at hmem
    rcases mem_append.1 (mem_of_mem_take hmem) with hmem | hmem
    · exact hq hmem
    · exact absurd hmem (by decide)
  · refine ⟨by rw [length_append]; omega, fun hmem => ?_⟩
    rw [take_append_of_le_length hn] at hmem
    exact hq (mem_of_mem_take hmem)

theorem exists_u_of_isMark {z : Text} (h : IsMark z) : ∃ c t, z = c :: t ∧ (c = 'u' ∨ c = 'U') := by
  obtain ⟨c, t, rfl, hc⟩ := h.exists_cons
  refine ⟨c, t, rfl, (toNat_of_toLower_eq_u hc).imp (fun h => ?_) fun h => ?_⟩
  · exact Char.toNat_inj.1 h
  · exact Char.toNat_inj.1 h

theorem local_numericRef {b : Base} (hends : ['"', '&', 'u', 'U'].any b.isDigit = false) :
    Local (numericRef b) := by
  intro h r r' hr hr'
  have hb (c : Char) (hc : c ∈ ['"', '&', 'u', 'U']) : b.isDigit c = false :=
    Bool.eq_false_iff.2 (List.any_eq_false.1 hends c hc)
  obtain ⟨q, hq, hdigit, hend⟩ := exists_of_dropWhile b.isDigit h
  have hquote : '"' ∉ q := fun hmem => by
    have hd := hdigit _ hmem
    rw [hb '"' (by decide)] at hd
    cases hd
  cases hrest : h.dropWhile b.isDigit with
  | nil =>
    rw [hrest, append_nil] at hq
    subst hq
    obtain ⟨c, t, rfl, hc⟩ := exists_u_of_isMark hr
    obtain ⟨c', t', rfl, hc'⟩ := exists_u_of_isMark hr'
    have hu {c : Char} (hc : c = 'u' ∨ c = 'U') : b.isDigit c = false ∧ c ≠ ';' := by
      rcases hc with rfl | rfl
      · exact ⟨hb 'u' (by decide), by decide⟩
      · exact ⟨hb 'U' (by decide), by decide⟩
    rw [escapeDoubleQuotes_eq_self hquote, numericRef_run hdigit (hu hc).1,
      numericRef_run hdigit (hu hc').1, if_neg (hu hc).2, if_neg (hu hc').2]
    refine ⟨rfl, fun t n hn => ?_⟩
    split_ifs at hn
    obtain ⟨_, rfl⟩ := Prod.mk.inj (some.inj hn)
    exact ⟨le_rfl, fun hmem => hquote (mem_of_mem_take hmem)⟩
  | cons d h' =>
    rw [hrest] at hq hend
    have hd : b.isDigit d = false := hend
    have hd' : b.isDigit (escapedHead d) = false := by
      rw [escapedHead]
      split_ifs
      · exact hb '&' (by decide)
      · exact hd
    have hsemi : escapedHead d = ';' ↔ d = ';' := by
      rw [escapedHead]
      split_ifs with hdq
      · subst hdq
        decide
      · rfl
    obtain ⟨t', ht'⟩ := exists_escapeDoubleQuotes_cons d h'
    rw [hq, escapeDoubleQuotes_append, escapeDoubleQuotes_eq_self hquote, ht', append_assoc,
      append_assoc, cons_append, cons_append, numericRef_run hdigit hd, numericRef_run hdigit hd']
    refine ⟨by simp [hsemi], fun t n hn => ?_⟩
    split_ifs at hn
    all_goals
      obtain ⟨_, rfl⟩ := Prod.mk.inj (some.inj hn)
      exact take_run hquote (by simp only [*]; rfl)

theorem exists_of_isMark {z : Text} (h : IsMark z) :
    ∃ m t, z = m ++ '=' :: t ∧ m.length = 3 ∧ (∀ c ∈ m, isAsciiAlnum c) ∧
      m.getLast?.map Char.toLower = some 'l' := by
  obtain ⟨m, t, rfl, hm⟩ := startsWithCI_iff_exists.1 h
  rw [show "url=".toList.map Char.toLower = ['u', 'r', 'l', '='] from by decide] at hm
  obtain ⟨a, m, rfl, ha, hm⟩ := map_eq_cons_iff.1 hm
  obtain ⟨b, m, rfl, hb, hm⟩ := map_eq_cons_iff.1 hm
  obtain ⟨c, m, rfl, hc, hm⟩ := map_eq_cons_iff.1 hm
  obtain ⟨d, m, rfl, hd, hm⟩ := map_eq_cons_iff.1 hm
  rw [map_eq_nil_iff.1 hm, eq_of_toLower_eq hd rfl]
  have hletter {x y : Char} (hx : x.toLower = y) (hy : isAsciiAlpha y) : isAsciiAlnum x := by
    rw [isAsciiAlnum, ← Url.isAsciiAlpha_toLower, hx, hy, Bool.true_or]
  refine ⟨[a, b, c], t, rfl, rfl, fun x hx => ?_, congrArg some hc⟩
  simp only [mem_cons, not_mem_nil, or_false] at hx
  rcases hx with rfl | rfl | rfl
  · exact hletter ha (by decide)
  · exact hletter hb (by decide)
  · exact hletter hc (by decide)

variable (T : PlainRefs)

theorem local_nameRef : Local (nameRef T.toNamedRefs) := by
  intro h r r' hr hr'
  obtain ⟨q, hq, hword, hend⟩ := exists_of_dropWhile isAsciiAlnum h
  have hquote : '"' ∉ q := fun hmem => absurd (hword _ hmem) (by decide)
  cases hrest : h.dropWhile isAsciiAlnum with
  | nil =>
    rw [hrest, append_nil] at hq
    subst hq
    have hnone {r : Text} (hr : IsMark r) : nameRef T.toNamedRefs (h ++ r) = none := by
      obtain ⟨m, t, rfl, _, hm, _⟩ := exists_of_isMark hr
      rw [← append_assoc]
      exact T.nameRef_equals (fun c hc => (mem_append.1 hc).elim (hword c) (hm c)) t
    rw [escapeDoubleQuotes_eq_self hquote, hnone hr, hnone hr']
    refine ⟨rfl, fun t n hn => ?_⟩
    cases hn
  | cons d h' =>
    rw [hrest] at hq hend
    have hd : isAsciiAlnum d = false := hend
    have hd' : isAsciiAlnum (escapedHead d) = false := by
      rw [escapedHead]
      split_ifs
      · decide
      · exact hd
    have hsame {c : Char} (hc : c ≠ '"' ∧ c ≠ '&') : d = c ↔ escapedHead d = c := by
      rw [escapedHead]
      split_ifs with hdq
      · subst hdq
        exact iff_of_false (Ne.symm hc.1) (Ne.symm hc.2)
      · rfl
    obtain ⟨t', ht'⟩ := exists_escapeDoubleQuotes_cons d h'
    rw [hq, escapeDoubleQuotes_append, escapeDoubleQuotes_eq_self hquote, ht', append_assoc,
      append_assoc]
    refine ⟨T.nameRef_congr hd hd' (hsame (by decide)) (hsame (by decide)) _ _, fun t n hn => ?_⟩
    exact take_run hquote (T.length_le_of_nameRef hd hn)

theorem attrRef_number (s : Text) (h : ∀ d, s.head? = some d → ¬ (d = 'x' ∨ d = 'X')) :
    attrRef T.toNamedRefs ('#' :: s) = (numericRef decimal s).map fun (r, n) => (r, n + 1) := by
  cases s with
  | nil => rfl
  | cons d t => exact attrRef_decimal T.toNamedRefs (h d rfl) t

theorem Local.shift {ref ref' : Resolver} (hl : Local ref) {k : Text} (hk : '"' ∉ k) {h r r' : Text}
    (hr : IsMark r) (hr' : IsMark r')
    (h1 : ref' (k ++ (h ++ r)) = (ref (h ++ r)).map fun (t, n) => (t, n + k.length))
    (h2 : ref' (k ++ (escapeDoubleQuotes h ++ r')) =
      (ref (escapeDoubleQuotes h ++ r')).map fun (t, n) => (t, n + k.length)) :
    ref' (k ++ h ++ r) = ref' (escapeDoubleQuotes (k ++ h) ++ r') ∧
      ∀ t n, ref' (k ++ h ++ r) = some (t, n) → n ≤ (k ++ h).length ∧ '"' ∉ (k ++ h).take n := by
  obtain ⟨heq, hbound⟩ := hl h r r' hr hr'
  rw [escapeDoubleQuotes_append, escapeDoubleQuotes_eq_self hk, append_assoc, append_assoc,
    h1, h2, heq]
  refine ⟨rfl, fun t n hn => ?_⟩
  obtain ⟨⟨t', m⟩, hm, hp⟩ := map_eq_some_iff.1 hn
  obtain ⟨rfl, rfl⟩ := Prod.mk.inj hp
  obtain ⟨hlen, hquote⟩ := hbound _ _ (heq.trans hm)
  rw [length_append, add_comm m, take_length_add_append]
  refine ⟨by omega, fun hmem => ?_⟩
  exact (mem_append.1 hmem).elim hk hquote

theorem local_attrRef : Local (attrRef T.toNamedRefs) := by
  have hdec : Local (numericRef decimal) := local_numericRef (by decide)
  have hhex : Local (numericRef hexadecimal) := local_numericRef (by decide)
  intro h r r' hr hr'
  have hu {r : Text} (hr : IsMark r) : attrRef T.toNamedRefs r = nameRef T.toNamedRefs r := by
    obtain ⟨c, t, rfl, hc⟩ := exists_u_of_isMark hr
    rcases hc with rfl | rfl
    · rfl
    · rfl
  cases h with
  | nil =>
    rw [show escapeDoubleQuotes [] = [] from rfl, nil_append, nil_append, hu hr, hu hr']
    exact local_nameRef T [] r r' hr hr'
  | cons c h =>
    by_cases hhash : c = '#'
    · subst hhash
      have hx {r : Text} (hr : IsMark r) : ∀ d, r.head? = some d → ¬ (d = 'x' ∨ d = 'X') := by
        obtain ⟨c, t, rfl, hc⟩ := exists_u_of_isMark hr
        rintro d hd
        cases hd
        rcases hc with rfl | rfl <;> decide
      by_cases hhexa : ∃ d h', h = d :: h' ∧ (d = 'x' ∨ d = 'X')
      · obtain ⟨d, h, rfl, hd⟩ := hhexa
        refine hhex.shift (k := ['#', d]) ?_ hr hr' (attrRef_hexadecimal _ hd _)
          (attrRef_hexadecimal _ hd _)
        rcases hd with rfl | rfl <;> decide
      refine hdec.shift (k := ['#']) (by decide) hr hr' (attrRef_number T _ fun d hd => ?_)
        (attrRef_number T _ fun d hd => ?_)
      · cases h with
        | nil => exact hx hr d hd
        | cons e h => exact fun hex => hhexa ⟨e, h, rfl, some.inj hd ▸ hex⟩
      cases h with
      | nil => exact hx hr' d hd
      | cons e h =>
        obtain ⟨t, ht⟩ := exists_escapeDoubleQuotes_cons e h
        rw [ht] at hd
        cases hd
        rw [escapedHead]
        split_ifs
        · decide
        · exact fun hex => hhexa ⟨e, h, rfl, hex⟩
    · by_cases halnum : isAsciiAlnum c
      · have hquote : c ≠ '"' := by
          rintro rfl
          exact absurd halnum (by decide)
        have hstep (s : Text) : attrRef T.toNamedRefs (c :: s) = nameRef T.toNamedRefs (c :: s) := by
          rw [attrRef, if_neg hhash, if_pos halnum]
        have hlocal := local_nameRef T (c :: h) r r' hr hr'
        rw [escapeDoubleQuotes_cons hquote, cons_append, cons_append] at hlocal ⊢
        rw [hstep, hstep]
        exact hlocal
      · -- Neither a number nor a name begins here.
        obtain ⟨t, ht⟩ := exists_escapeDoubleQuotes_cons c h
        have hnone {c : Char} (hh : c ≠ '#') (ha : ¬ isAsciiAlnum c) (s : Text) :
            attrRef T.toNamedRefs (c :: s) = none := by
          rw [attrRef, if_neg hh, if_neg ha]
        rw [ht, cons_append, hnone hhash halnum]
        constructor
        · rw [escapedHead]
          split_ifs
          · rfl
          · exact (hnone hhash halnum _).symm
        · intro t n hn
          cases hn

theorem decodeAttr_escapeDoubleQuotes {r r' : Text} (hr : IsMark r) (hr' : IsMark r') (h : Text) :
    ∃ y, decodeAttr T.toNamedRefs (h ++ r) = y ++ decodeAttr T.toNamedRefs r ∧
      decodeAttr T.toNamedRefs (escapeDoubleQuotes h ++ r') = y ++ decodeAttr T.toNamedRefs r' := by
  -- By induction on the length, for a reference may take up several characters.
  induction hn : h.length using Nat.strong_induction_on generalizing h with
  | _ n ih =>
    subst hn
    cases h with
    | nil => exact ⟨[], rfl, rfl⟩
    | cons c h =>
      by_cases hamp : c = '&'
      · subst hamp
        obtain ⟨heq, hbound⟩ := local_attrRef T h r r' hr hr'
        rw [escapeDoubleQuotes_cons (by decide), cons_append, cons_append, decodeAttr]
        cases href : attrRef T.toNamedRefs (h ++ r) with
        | none =>
          obtain ⟨y, h1, h2⟩ := ih h.length (Nat.lt_succ_self _) h rfl
          refine ⟨'&' :: y, ?_, ?_⟩
          · rw [decodeRefs_amp_none _ href, ← decodeAttr, h1]
            rfl
          · rw [decodeAttr, decodeRefs_amp_none _ (heq ▸ href), ← decodeAttr, h2]
            rfl
        | some p =>
          obtain ⟨t, m⟩ := p
          obtain ⟨hlen, hquote⟩ := hbound t m href
          have hlt : (h.drop m).length < ('&' :: h).length := by
            rw [length_drop, length_cons]
            omega
          obtain ⟨y, h1, h2⟩ := ih _ hlt (h.drop m) rfl
          have hesc : escapeDoubleQuotes h = h.take m ++ escapeDoubleQuotes (h.drop m) := by
            conv_lhs => rw [← take_append_drop m h]
            rw [escapeDoubleQuotes_append, escapeDoubleQuotes_eq_self hquote]
          refine ⟨t ++ y, ?_, ?_⟩
          · rw [decodeRefs_amp_some _ href, drop_append_of_le_length hlen, ← decodeAttr, h1,
              append_assoc]
          · have htake : (h.take m).length = m := length_take_of_le hlen
            rw [decodeAttr, decodeRefs_amp_some _ (heq ▸ href), hesc, append_assoc,
              drop_append, htake, Nat.sub_self, drop_of_length_le htake.le, nil_append,
              drop_zero, ← decodeAttr, h2, append_assoc]
      · obtain ⟨y, h1, h2⟩ := ih h.length (Nat.lt_succ_self _) h rfl
        refine ⟨c :: y, ?_, ?_⟩
        · rw [cons_append, decodeAttr, decodeRefs_cons _ hamp, ← decodeAttr, h1]
          rfl
        by_cases hquote : c = '"'
        · subst hquote
          have hquot : attrRef T.toNamedRefs ("quot;" ++ (escapeDoubleQuotes h ++ r')) =
              some (['"'], 5) :=
            @attrRef_of_entry ['"'] T.toNamedRefs 'q' "uot" (by decide) (T.basic _ (by decide)) _
          rw [show escapeDoubleQuotes ('"' :: h) ++ r' =
            '&' :: ("quot;" ++ (escapeDoubleQuotes h ++ r')) from rfl, decodeAttr,
            decodeRefs_amp_some _ hquot, show "quot;" = ['q', 'u', 'o', 't', ';'] from rfl]
          exact congrArg ('"' :: ·) h2
        · rw [escapeDoubleQuotes_cons hquote, cons_append, decodeAttr,
            decodeRefs_cons _ hamp, ← decodeAttr, h2]
          rfl

/-! ## Addresses -/

def isOriginChar (c : Char) : Bool := isAsciiAlnum c || ".-:/[]".toList.contains c

/-- The proxy's origin: a scheme, a host and a port. -/
structure ProxyOrigin where
  /-- The origin. -/
  text : Text
  /-- It is an http(s) URL. -/
  http : isHttpUrl text
  /-- It has no other characters. -/
  plain : text.all isOriginChar

variable (o : ProxyOrigin)

theorem ProxyOrigin.not_mem {c : Char} (hc : isOriginChar c = false) : c ∉ o.text := by
  intro h
  have := all_eq_true.1 o.plain c h
  rw [hc] at this
  cases this

theorem ProxyOrigin.exists_cons : ∃ c t, o.text = c :: t ∧ (c = 'h' ∨ c = 'H') := by
  have hh {c : Char} (hc : c.toLower = 'h') : c = 'h' ∨ c = 'H' := by
    have hn := toNat_toLower c
    rw [hc, show 'h'.toNat = 0x68 from rfl] at hn
    rw [← Char.toNat_inj, ← Char.toNat_inj, show 'h'.toNat = 0x68 from rfl,
      show 'H'.toNat = 0x48 from rfl]
    split_ifs at hn <;> omega
  have ho := o.http
  rw [isHttpUrl, Bool.or_eq_true] at ho
  rcases ho with ho | ho
  · obtain ⟨c, t, ht, hc, _⟩ := exists_cons_of_startsWithCI ho
    exact ⟨c, t, ht, hh hc⟩
  · obtain ⟨c, t, ht, hc, _⟩ := exists_cons_of_startsWithCI ho
    exact ⟨c, t, ht, hh hc⟩

/-- The address `<start>?via=<target>`. -/
def viaAddress (start : Text) (keep : Char → Bool) (x : Text) : Text :=
  start ++ "?via=" ++ percentEncode keep x

section Address

variable {start : Text} {keep : Char → Bool}

theorem viaAddress_unmarked (hs : '=' ∉ start) (hk : keep '=' = false) {x a v : Text}
    (h : viaAddress start keep x = a ++ v) : ¬ IsMark v := by
  intro hv
  obtain ⟨m, t, rfl, hlen, hm, hlast⟩ := exists_of_isMark hv
  have hx : '=' ∉ percentEncode keep x := not_mem_percentEncode hk (by decide) (by decide) x
  have hvia : '=' ∉ start ++ "?via" := by
    rw [mem_append, not_or]
    exact ⟨hs, by decide⟩
  have hsplit : (start ++ "?via") ++ '=' :: percentEncode keep x = (a ++ m) ++ '=' :: t := by
    rw [append_assoc a, ← h, viaAddress, show "?via=" = "?via" ++ ['='] from rfl]
    simp
  -- The two equals signs are the same one, so the mark ends as the part before it does.
  have heq : start ++ "?via" = a ++ m := by
    rcases append_eq_append_iff.1 hsplit with ⟨k, hk1, hk2⟩ | ⟨k, hk1, hk2⟩
    · cases k with
      | nil => rw [hk1, append_nil]
      | cons c k =>
        rw [cons_append] at hk2
        exact absurd ((cons.inj hk2).2 ▸ mem_append_right k (.head _)) hx
    cases k with
    | nil => rw [hk1, append_nil]
    | cons c k =>
      rw [cons_append] at hk2
      refine absurd ?_ hvia
      rw [hk1, (cons.inj hk2).1]
      exact mem_append_right _ (.head _)
  have hne : m ≠ [] := by
    rintro rfl
    cases hlen
  have hend := congrArg getLast? heq
  rw [getLast?_append_of_ne_nil _ hne, getLast?_append_of_ne_nil _ (by decide)] at hend
  rw [← hend] at hlast
  exact absurd hlast (by decide)

theorem viaAddress_head (hs : ∃ c t, start = c :: t ∧ (c = 'h' ∨ c = 'H')) (x : Text) :
    ∃ c t, viaAddress start keep x = c :: t ∧ isC0OrSpace c = false ∧ c ≠ '#' ∧
      isQuote c = false := by
  obtain ⟨c, t, rfl, hc⟩ := hs
  refine ⟨c, _, rfl, ?_⟩
  rcases hc with rfl | rfl <;> decide

end Address

/-! ## The rule of the transformer -/

/-- A text without the quotation marks around it. -/
def stripQuotes (raw : Text) : Text :=
  let quoted := fun q => raw.head? = some q ∧ raw.getLast? = some q ∧ 2 ≤ raw.length
  if quoted '"' ∨ quoted '\'' then raw.tail.dropLast else raw

def metaTarget (base raw : Text) : Option Text :=
  let raw := rustTrim (stripQuotes (rustTrim raw))
  if raw.isEmpty || startsWithAsciiCi raw "javascript:" then none
  else absoluteTargetUrl raw base

/-- The rule of `proxiedMetaRefresh`, in markup. -/
def metaRule (o : ProxyOrigin) (base : Text) : RefreshRule where
  read := decodeAttr T.toNamedRefs
  write := escapeDoubleQuotes
  target := metaTarget base
  address := viaAddress (controlBase o.text controlPrefix) urlParamKeep
  drops := false

theorem ProxyOrigin.proxiedNavigationUrl_eq (x : Text) :
    proxiedNavigationUrl x o.text controlPrefix =
      some (viaAddress (controlBase o.text controlPrefix) urlParamKeep x) := by
  obtain ⟨c, t, hc, _⟩ := o.exists_cons
  rw [proxiedNavigationUrl, if_neg (by rw [hc]; exact Bool.false_ne_true), viaAddress]

theorem proxiedMetaRefresh_eq (base w : Text) : proxiedMetaRefresh w o.text controlPrefix base =
      (RefreshRule.firstMark w).bind fun i => (metaTarget base (w.drop (i + 4))).map fun x =>
        w.take i ++ (mark ++ (metaRule T o base).address x) := by
  have hstep (head raw : Text) : (if raw.isEmpty || startsWithAsciiCi raw "javascript:" then none
        else (absoluteTargetUrl raw base).bind fun absolute =>
          (proxiedNavigationUrl absolute o.text controlPrefix).map fun next =>
            head ++ "url=" ++ next) =
      (if raw.isEmpty || startsWithAsciiCi raw "javascript:" then none
        else absoluteTargetUrl raw base).map fun x =>
          head ++ (mark ++ (metaRule T o base).address x) := by
    split_ifs
    · rfl
    · cases absoluteTargetUrl raw base with
      | none => rfl
      | some x =>
        rw [bind_some, o.proxiedNavigationUrl_eq, map_some, append_assoc]
        rfl
  exact congrArg (bind _) (funext fun i => hstep _ _)

theorem emitted_metaRule (base w : Text) : (metaRule T o base).emitted w =
      some (((proxiedMetaRefresh w o.text controlPrefix base).map escapeDoubleQuotes).getD w) := by
  rw [proxiedMetaRefresh_eq T, RefreshRule.emitted]
  cases RefreshRule.firstMark w with
  | none => rfl
  | some i =>
    dsimp only [metaRule]
    rw [bind_some]
    cases metaTarget base (w.drop (i + 4)) with
    | none | some x => rfl

theorem ProxyOrigin.not_mem_controlBase {c : Char} (hc : isOriginChar c = false)
    (hz : c ∉ controlPrefix) : c ∉ controlBase o.text controlPrefix := by
  have hslash : c ≠ '/' := by
    rintro rfl
    exact absurd hc (by decide)
  have hout : c ∉ trimEndMatches '/' o.text ++ controlPrefix := by
    rw [mem_append, not_or]
    exact ⟨fun h => o.not_mem hc (( rdropWhile_prefix _ _).mem h), hz⟩
  rw [controlBase]
  split_ifs
  · exact hout
  · rw [mem_append, not_or, mem_singleton]
    exact ⟨hout, hslash⟩

theorem decodeAttr_mark_append {z : Text} (h : IsMark z) : IsMark (decodeAttr T.toNamedRefs z) := by
  obtain ⟨m, t, rfl, hm⟩ := startsWithCI_iff_exists.1 h
  have hamp : ∀ c ∈ m, c ≠ '&' := by
    rintro c hc rfl
    have : Char.toLower '&' ∈ "url=".toList.map Char.toLower := hm ▸ mem_map_of_mem hc
    exact absurd this (by decide)
  have hdec : decodeAttr T.toNamedRefs (m ++ t) = m ++ decodeAttr T.toNamedRefs t := by
    clear hm h
    induction m with
    | nil => rfl
    | cons c m ih =>
      rw [cons_append, decodeAttr, decodeRefs_cons _ (hamp c (.head _)), ← decodeAttr,
        ih fun d hd => hamp d (.tail _ hd), cons_append]
  rw [hdec]
  exact startsWithCI_iff_exists.2 ⟨m, _, rfl, hm⟩

theorem lawful_metaRule (base : Text) : (metaRule T o base).Lawful where
  reads {w i} hi := by
    have hmark := isMark_of_firstMark hi
    -- Nothing of an address is decoded or escaped.
    have hplain {c : Char} (hc : isOriginChar c = false) (hz : c ∉ controlPrefix)
        (hv : c ∉ "?via=".toList) (hk : urlParamKeep c = false) (ha : isAsciiAlnum c = false)
        (hp : c ≠ '%') (hm : c ∉ mark) (x : Text) : c ∉ mark ++ (metaRule T o base).address x := by
      simp only [metaRule, viaAddress, mem_append, not_or]
      exact ⟨hm, ⟨o.not_mem_controlBase hc hz, hv⟩, not_mem_percentEncode hk ha hp x⟩
    have hamp (x : Text) := @hplain '&' (by decide) (by decide) (by decide) (by decide) (by decide)
      (by decide) (by decide) x
    have hquot (x : Text) := @hplain '"' (by decide) (by decide) (by decide) (by decide) (by decide)
      (by decide) (by decide) x
    obtain ⟨y, hy, _⟩ := decodeAttr_escapeDoubleQuotes T hmark hmark (w.take i)
    rw [take_append_drop] at hy
    refine ⟨y, hy, decodeAttr_mark_append T hmark, fun x => ?_⟩
    obtain ⟨y', hy1, hy2⟩ := decodeAttr_escapeDoubleQuotes T hmark
      (isMark_mark_append ((metaRule T o base).address x)) (w.take i)
    rw [take_append_drop] at hy1
    obtain rfl : y = y' := append_cancel_right (hy.symm.trans hy1)
    rw [decodeAttr_eq_self _ (hamp x)] at hy2
    rw [← hy2]
    simp only [metaRule] at hquot ⊢
    rw [escapeDoubleQuotes_append, escapeDoubleQuotes_eq_self (hquot x)]
  head := viaAddress_head (by
    obtain ⟨c, t, ht, hc⟩ := o.exists_cons
    have hslash : (c == '/') = false := by rcases hc with rfl | rfl <;> decide
    obtain ⟨u, hu⟩ := exists_controlBase_eq_cons hslash t controlPrefix
    exact ⟨c, u, ht ▸ hu, hc⟩)
  unmarked := viaAddress_unmarked (o.not_mem_controlBase (by decide) (by decide)) (by decide)

/-! ## Refreshing tags -/

section Tag

variable (o : ProxyOrigin) (base : Text) (resolve : Text → Option Text) (el : Element)

/-- A `<meta>` tag that refreshes the document, for a browser. -/
def IsRefresh : Prop :=
  el.tag = "meta" ∧ ∃ v, el.attr "http-equiv" = some ⟨"http-equiv", v, false⟩ ∧
    eqCI (decodeAttr T.toNamedRefs v) "refresh"

/-- The transformer takes the tag for a refreshing one. -/
def recognized : Bool := (el.getAttribute "http-equiv").any fun v => eqCI (rustTrim v) "refresh"

/-- A refreshing tag navigates to the proxied address of its target, if at all. -/
def MetaContained : Prop := IsRefresh T el → ∀ w, el.attr "content" = some ⟨"content", w, false⟩ →
    ∀ s t, refreshUrl (decodeAttr T.toNamedRefs w) = some s → resolve s = some t →
      ∀ e, (rewriteRefresh ⟨base, o.text⟩ base el).emitted "content" = some e →
        ∀ s', refreshUrl (decodeAttr T.toNamedRefs e) = some s' →
          (metaRule T o base).Serves resolve s t s'

/-- A refreshing tag is recognized and its `content` faithful, or its URL needed no
    rewriting. -/
def MetaFaithful : Prop := IsRefresh T el → ∀ w, el.attr "content" = some ⟨"content", w, false⟩ →
    if recognized el then (metaRule T o base).Faithful resolve w
    else ∀ s t, refreshUrl (decodeAttr T.toNamedRefs w) = some s → resolve s = some t →
      (metaRule T o base).Serves resolve s t s

variable {el}

theorem emitted_rewriteRefresh (opts : TransformOptions) (htag : el.tag = "meta") {w : Text}
    (hw : el.attr "content" = some ⟨"content", w, false⟩) :
    (rewriteRefresh opts base el).emitted "content" = if recognized el then
        some (((proxiedMetaRefresh w opts.proxyOrigin controlPrefix base).map
          escapeDoubleQuotes).getD w)
      else some w := by
  have hsame : el.emitted "content" = some w := by
    rw [Element.emitted, hw]
    rfl
  have hget : el.getAttribute "content" = some w := by
    rw [Element.getAttribute, hw]
    rfl
  rw [rewriteRefresh]
  by_cases hrec : recognized el
  · rw [if_pos ⟨htag, hrec⟩, if_pos hrec, hget]
    dsimp only
    cases proxiedMetaRefresh w opts.proxyOrigin controlPrefix base with
    | none => exact hsame
    | some next =>
      rw [Element.emitted, Element.attr_setAttribute]
      rfl
  · rw [if_neg fun h => hrec h.2, if_neg hrec, hsame]

theorem metaContained_iff_metaFaithful :
    MetaContained T o base resolve el ↔ MetaFaithful T o base resolve el := by
  refine forall_congr' fun hrefresh => forall₂_congr fun w hw => ?_
  rw [emitted_rewriteRefresh base ⟨base, o.text⟩ hrefresh.1 hw]
  by_cases hrec : recognized el
  · rw [if_pos hrec, if_pos hrec, ← (lawful_metaRule T o base).contained_iff w,
      RefreshRule.Contained, emitted_metaRule]
    rfl
  rw [if_neg hrec, if_neg hrec]
  refine forall₂_congr fun s t => forall₂_congr fun hs ht => ?_
  constructor
  · exact fun hc => hc w rfl s hs
  · intro hserves e he s' hs'
    cases he
    obtain rfl := some.inj (hs.symm.trans hs')
    exact hserves

end Tag

end ZeroProxy.Htmltx
