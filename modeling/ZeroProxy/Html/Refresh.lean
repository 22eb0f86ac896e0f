import ZeroProxy.Text.Search

/-!
# Declarative refreshes

The shared declarative refresh steps of HTML, which read a `Refresh` header and the `content`
of a refreshing `<meta>` element: a time, a separator, and a URL that may be marked by `url=`
and stand in quotes.
-/

namespace ZeroProxy.Html

open Bool List Option Text

def isTimeChar (c : Char) : Bool := isAsciiDigit c || c == '.'

def isSeparator (c : Char) : Bool := c == ';' || c == ','

/-- `s` without the ASCII white space at its head. -/
def skipWhitespace (s : Text) : Text := s.dropWhile isAsciiWhitespace

def afterSeparator : Text → Option Text
  | [] => some []
  | c :: s =>
    if isSeparator c then some (skipWhitespace s)
    else if isAsciiWhitespace c then
      match skipWhitespace s with
      | [] => some []
      | d :: t => if isSeparator d then some (skipWhitespace t) else some (d :: t)
    else none

/-- What follows the time and its separator; none when there is no time. -/
def afterTime (s : Text) : Option Text :=
  let s := skipWhitespace s
  if s.head?.any isTimeChar then afterSeparator (s.dropWhile isTimeChar) else none

def isQuote (c : Char) : Bool := c == '"' || c == '\''

/-- The text up to its closing quotation mark, when it begins with a quotation mark. -/
def unquoted : Text → Text
  | [] => []
  | q :: s => if isQuote q then s.takeWhile (· != q) else q :: s

/-- The URL of a refresh. A text that begins like `url=` and goes on otherwise is the URL
    itself. -/
def urlString (r : Text) : Text := if startsWithCI r "url" then
    match skipWhitespace (r.drop 3) with
    | '=' :: s => unquoted (skipWhitespace s)
    | _ => r
  else if startsWithCI r "u" then r
  else unquoted r

def refreshUrl (s : Text) : Option Text :=
  match afterTime s with
  | some (c :: r) => some (urlString (c :: r))
  | _ => none

example : refreshUrl "5" = none := by decide

example : refreshUrl " 0;URL = 'a.html' x" = some "a.html" := by decide

example : refreshUrl "1.5,a.html" = some "a.html" := by decide

/-! ## What follows the time -/

section AfterTime

variable {p : Char → Bool} {a x : Text}

theorem dropWhile_append_of_head (ha : ∀ c ∈ a, p c) (hx : x.head?.any p = false) :
    (a ++ x).dropWhile p = x := by
  induction a with
  | nil =>
    cases x with
    | nil => rfl
    | cons c x => exact dropWhile_cons_of_neg (eq_false_iff.1 hx)
  | cons c a ih =>
    rw [cons_append, dropWhile_cons_of_pos (ha c (.head _)), ih fun d hd => ha d (.tail _ hd)]

theorem exists_of_dropWhile (p : Char → Bool) (s : Text) : ∃ a, s = a ++ s.dropWhile p ∧
    (∀ c ∈ a, p c) ∧ (s.dropWhile p).head?.any p = false := by
  refine ⟨s.takeWhile p, takeWhile_append_dropWhile.symm, fun c hc => mem_takeWhile_imp hc, ?_⟩
  cases h : (s.dropWhile p).head? with
  | none => rfl
  | some c => exact head?_dropWhile_eq_false h

end AfterTime

def isLeadChar (c : Char) : Bool := isAsciiWhitespace c || isTimeChar c || isSeparator c

/-- The text `r` can follow the lead of a refresh whose URL begins with `a`. -/
def CanFollow (a : Char) (r : Text) : Prop :=
  ∃ b t, r = b :: t ∧ isAsciiWhitespace b = false ∧ (isSeparator b → isSeparator a)

variable {r s : Text} {a : Char}

theorem exists_of_skipWhitespace
    (h : skipWhitespace s = a :: r) : ∃ l, s = l ++ a :: r ∧ (∀ c ∈ l, isAsciiWhitespace c) ∧
      isAsciiWhitespace a = false ∧ ∀ r', CanFollow a r' → skipWhitespace (l ++ r') = r' := by
  obtain ⟨l, hl, hws, ha⟩ := exists_of_dropWhile isAsciiWhitespace s
  refine ⟨l, hl.trans (congrArg (l ++ ·) h), hws, ?_, fun r' hr' => ?_⟩
  · rw [← skipWhitespace, h] at ha
    exact ha
  · obtain ⟨b, t, rfl, hb, _⟩ := hr'
    exact dropWhile_append_of_head hws hb

theorem afterSeparator_spec (h : afterSeparator s = some (a :: r)) :
    ∃ l, s = l ++ a :: r ∧ l ≠ [] ∧ (∀ c ∈ l, isAsciiWhitespace c || isSeparator c) ∧
      isAsciiWhitespace a = false ∧ ∀ r', CanFollow a r' → afterSeparator (l ++ r') = some r' := by
  cases s with
  | nil => cases h
  | cons c s =>
    rw [afterSeparator] at h
    by_cases hc : isSeparator c
    · rw [if_pos hc] at h
      obtain ⟨l, rfl, hl, ha, hfollow⟩ := exists_of_skipWhitespace (some.inj h)
      refine ⟨c :: l, rfl, cons_ne_nil _ _, fun d hd => ?_, ha, fun r' hr' => ?_⟩
      · rw [or_eq_true]
        exact (mem_cons.1 hd).elim (fun h => .inr (h ▸ hc)) fun h => .inl (hl d h)
      · rw [cons_append, afterSeparator, if_pos hc, hfollow r' hr']
    split_ifs at h with hws
    split at h
    · cases h
    next d t hd =>
      obtain ⟨l, rfl, hl, hdws, hfollow⟩ := exists_of_skipWhitespace hd
      by_cases hsep : isSeparator d
      · -- White space, a separator, and white space again.
        rw [if_pos hsep] at h
        obtain ⟨l', rfl, hl', ha, hfollow'⟩ := exists_of_skipWhitespace (some.inj h)
        refine ⟨c :: (l ++ d :: l'), by simp, cons_ne_nil _ _, fun e he => ?_, ha, fun r' hr' => ?_⟩
        · rw [or_eq_true]
          rcases mem_cons.1 he with rfl | he
          · exact .inl hws
          · rcases mem_append.1 he with he | he
            · exact .inl (hl e he)
            · exact (mem_cons.1 he).elim (fun h => .inr (h ▸ hsep)) fun h => .inl (hl' e h)
        · have hskip : skipWhitespace (l ++ d :: (l' ++ r')) = d :: (l' ++ r') :=
            hfollow _ ⟨d, _, rfl, hdws, fun h => h⟩
          rw [cons_append, append_assoc, cons_append, afterSeparator, if_neg hc, if_pos hws, hskip]
          dsimp only
          rw [if_pos hsep, hfollow' r' hr']
      · rw [if_neg hsep] at h
        obtain ⟨rfl, rfl⟩ := cons.inj (some.inj h)
        refine ⟨c :: l, rfl, cons_ne_nil _ _, fun e he => ?_, hdws, fun r' hr' => ?_⟩
        · rw [or_eq_true]
          exact (mem_cons.1 he).elim (fun h => .inl (h ▸ hws)) fun h => .inl (hl e h)
        · have hskip := hfollow r' hr'
          obtain ⟨b, t', rfl, _, hb⟩ := hr'
          rw [cons_append, afterSeparator, if_neg hc, if_pos hws, hskip]
          dsimp only
          rw [if_neg fun h => hsep (hb h)]

theorem not_isTimeChar_of_separates {c : Char} (h : isAsciiWhitespace c || isSeparator c) :
    isTimeChar c = false := by
  rw [isAsciiWhitespace, isSeparator] at h
  simp only [or_eq_true, beq_iff_eq] at h
  rcases h with ((((rfl | rfl) | rfl) | rfl) | rfl) | rfl | rfl <;> decide

theorem afterTime_spec (h : afterTime s = some (a :: r)) :
    ∃ l, s = l ++ a :: r ∧ (∀ c ∈ l, isLeadChar c) ∧ isAsciiWhitespace a = false ∧
      ∀ r', CanFollow a r' → afterTime (l ++ r') = some r' := by
  rw [afterTime] at h
  split_ifs at h with htime
  obtain ⟨w, hw, hws, _⟩ := exists_of_dropWhile isAsciiWhitespace s
  obtain ⟨n, hn, hnum, _⟩ := exists_of_dropWhile isTimeChar (skipWhitespace s)
  obtain ⟨l, hl, hne, hlead, ha, hfollow⟩ := afterSeparator_spec h
  rw [hl] at hn
  have hs : s = w ++ (n ++ (l ++ a :: r)) := hw.trans (congrArg (w ++ ·) hn)
  refine ⟨w ++ (n ++ l), by rw [hs]; simp, fun c hc => ?_, ha, fun r' hr' => ?_⟩
  · rw [isLeadChar, Bool.or_assoc, or_eq_true, or_eq_true]
    rcases mem_append.1 hc with hc | hc
    · exact .inl (hws c hc)
    · rcases mem_append.1 hc with hc | hc
      · exact .inr (.inl (hnum c hc))
      · exact (or_eq_true _ _ ▸ hlead c hc : _ ∨ _).imp_right .inr
  have hhead {t : Text} : (l ++ t).head?.any isTimeChar = false := by
    obtain ⟨c, l', rfl⟩ := exists_cons_of_ne_nil hne
    exact not_isTimeChar_of_separates (hlead c (.head _))
  -- The time is not empty, so nothing of it is taken for white space.
  obtain ⟨d, n', rfl⟩ : ∃ d n', n = d :: n' := by
    refine exists_cons_of_ne_nil fun hnil => ?_
    rw [hn, hnil, nil_append, hhead] at htime
    cases htime
  have hd := hnum d (.head _)
  have hdws : isAsciiWhitespace d = false := by
    refine eq_false_iff.2 fun h => ?_
    rw [not_isTimeChar_of_separates (by rw [h]; rfl)] at hd
    cases hd
  have hskip : skipWhitespace (w ++ (d :: n' ++ (l ++ r'))) = d :: n' ++ (l ++ r') :=
    dropWhile_append_of_head hws hdws
  have htime' : (d :: n' ++ (l ++ r')).head?.any isTimeChar := hd
  rw [afterTime, append_assoc, append_assoc, hskip, if_pos htime', dropWhile_append_of_head hnum hhead, hfollow r' hr']

/-! ## Marks -/

/-- A text that begins with the mark `url=`, in any case. -/
def IsMark (z : Text) : Prop := startsWithCI z "url="

theorem IsMark.exists_cons {z : Text} (h : IsMark z) : ∃ c t, z = c :: t ∧ c.toLower = 'u' := by
  obtain ⟨c, t, rfl, hc, _⟩ := exists_cons_of_startsWithCI h
  exact ⟨c, t, rfl, hc⟩

/-- Two texts are equal, or they are alike up to a mark in each of them. -/
def AlikeToMark (s s' : Text) : Prop :=
  s = s' ∨ ∃ x v v', s = x ++ v ∧ s' = x ++ v' ∧ IsMark v ∧ IsMark v'

section Decoy

variable {z z' : Text}

theorem AlikeToMark.append (hz : IsMark z) (hz' : IsMark z') (x : Text) :
    AlikeToMark (x ++ z) (x ++ z') := .inr ⟨x, z, z', rfl, rfl, hz, hz'⟩

theorem IsMark.head_not_whitespace (h : IsMark z) : z.head?.any isAsciiWhitespace = false := by
  obtain ⟨c, t, rfl, hc⟩ := h.exists_cons
  refine eq_false_iff.2 fun hws => ?_
  rw [head?_cons, any_some, isAsciiWhitespace] at hws
  simp only [or_eq_true, beq_iff_eq] at hws
  rcases hws with (((rfl | rfl) | rfl) | rfl) | rfl <;> exact absurd hc (by decide)

theorem skipWhitespace_append (h : IsMark z) (t : Text) :
    skipWhitespace (t ++ z) = skipWhitespace t ++ z := by
  induction t with
  | nil =>
    obtain ⟨c, s, rfl, _⟩ := h.exists_cons
    exact dropWhile_cons_of_neg (eq_false_iff.1 h.head_not_whitespace)
  | cons c t ih =>
    rw [skipWhitespace] at ih ⊢
    by_cases hc : isAsciiWhitespace c
    · rw [cons_append, dropWhile_cons_of_pos hc, ih, skipWhitespace, skipWhitespace,
        dropWhile_cons_of_pos hc]
    · rw [cons_append, dropWhile_cons_of_neg hc, skipWhitespace,
        dropWhile_cons_of_neg hc, cons_append]

theorem IsMark.takeWhile (h : IsMark z) {q : Char} (hq : isQuote q) : IsMark (z.takeWhile (· != q)) := by
  obtain ⟨m, t, rfl, hm⟩ := startsWithCI_iff_exists.1 h
  have hkeep : ∀ c ∈ m, (c != q) := by
    intro c hc
    have hcl : c.toLower ∈ "url=".toList.map Char.toLower := hm ▸ mem_map_of_mem hc
    rw [bne_iff_ne]
    rintro rfl
    rw [isQuote, or_eq_true, beq_iff_eq, beq_iff_eq] at hq
    rcases hq with rfl | rfl <;> exact absurd hcl (by decide)
  rw [takeWhile_append_of_pos hkeep]
  exact startsWithCI_iff_exists.2 ⟨m, _, rfl, hm⟩

theorem alike_unquoted (hz : IsMark z) (hz' : IsMark z') (y : Text) :
    AlikeToMark (unquoted (y ++ z)) (unquoted (y ++ z')) := by
  have hbare {z : Text} (h : IsMark z) : unquoted z = z := by
    obtain ⟨c, t, rfl, hc⟩ := h.exists_cons
    rw [unquoted, if_neg]
    rw [isQuote, or_eq_true, beq_iff_eq, beq_iff_eq]
    rintro (rfl | rfl) <;> exact absurd hc (by decide)
  cases y with
  | nil =>
    rw [nil_append, nil_append, hbare hz, hbare hz']
    exact .append hz hz' []
  | cons q t =>
    rw [cons_append, cons_append, unquoted, unquoted]
    by_cases hq : isQuote q
    · rw [if_pos hq, if_pos hq]
      by_cases hclosed : q ∈ t
      · left
        have htake (z : Text) : (t ++ z).takeWhile (· != q) = t.takeWhile (· != q) := by
          rw [takeWhile_append, if_neg]
          intro hlen
          have hq' := takeWhile_eq_self_iff.1
            (IsPrefix.eq_of_length ( takeWhile_prefix (p := (· != q))) hlen) q hclosed
          exact absurd rfl (bne_iff_ne.1 hq')
        rw [htake, htake]
      · have hall : ∀ c ∈ t, (c != q) := fun c hc =>
          bne_iff_ne.2 fun h => hclosed (h ▸ hc)
        rw [takeWhile_append_of_pos hall, takeWhile_append_of_pos hall]
        exact .append (hz.takeWhile hq) (hz'.takeWhile hq) t
    · rw [if_neg hq, if_neg hq]
      exact .append hz hz' (q :: t)

theorem startsWithCI_url_append (hz : IsMark z) {y : Text} (hy : y ≠ []) :
    startsWithCI (y ++ z) "url" = startsWithCI y "url" := by
  obtain ⟨c, t, rfl, hc⟩ := hz.exists_cons
  have hr : (c.toLower == 'r'.toLower) = false := by rw [hc]; decide
  have hl : (c.toLower == 'l'.toLower) = false := by rw [hc]; decide
  rw [show "url" = ['u', 'r', 'l'] from rfl]
  -- The mark begins with the letter `u`, so it cannot complete the word.
  cases y with
  | nil => exact absurd rfl hy
  | cons a y =>
    cases y with
    | nil => simp only [cons_append, nil_append, cons_startsWithCI_cons,
        nil_startsWithCI_cons, hr, Bool.false_and]
    | cons b y =>
      cases y with
      | nil => simp only [cons_append, nil_append, cons_startsWithCI_cons,
          nil_startsWithCI_cons, hl, Bool.false_and]
      | cons d y => simp [cons_startsWithCI_cons]

theorem urlString_of_mark {r t : Text} (h : startsWithCI r "url")
    (hd : skipWhitespace (r.drop 3) = '=' :: t) : urlString r = unquoted (skipWhitespace t) := by
  rw [urlString, if_pos h, hd]
  rfl

theorem urlString_of_no_mark {r : Text} (h : startsWithCI r "url")
    (hd : (skipWhitespace (r.drop 3)).head? ≠ some '=') : urlString r = r := by
  rw [urlString, if_pos h]
  split
  · next heq => exact absurd (congrArg List.head? heq) hd
  · rfl

theorem urlString_decoy (hz : IsMark z) (hz' : IsMark z') {y : Text} (hy : y ≠ []) :
    AlikeToMark (urlString (y ++ z)) (urlString (y ++ z')) := by
  by_cases hurl : startsWithCI y "url"
  · have h (z : Text) (hz : IsMark z) : startsWithCI (y ++ z) "url" :=
      (startsWithCI_url_append hz hy).trans hurl
    have hlen : 3 ≤ y.length := by
      obtain ⟨m, t, rfl, hm⟩ := startsWithCI_iff_exists.1 hurl
      have := congrArg length hm
      rw [length_map, length_map] at this
      rw [length_append, this]
      exact Nat.le_add_right 3 _
    have hdrop (z : Text) (hz : IsMark z) :
        skipWhitespace ((y ++ z).drop 3) = skipWhitespace (y.drop 3) ++ z := by
      rw [drop_append_of_le_length hlen, skipWhitespace_append hz]
    cases hrest : skipWhitespace (y.drop 3) with
    | nil =>
      -- Only white space lies between the word and the mark, so the text is the URL itself.
      have hno (z : Text) (hz : IsMark z) : urlString (y ++ z) = y ++ z := by
        refine urlString_of_no_mark (h z hz) ?_
        rw [hdrop z hz, hrest, nil_append]
        obtain ⟨c, t, rfl, hc⟩ := hz.exists_cons
        rw [head?_cons]
        intro he
        rw [some.inj he] at hc
        exact absurd hc (by decide)
      rw [hno z hz, hno z' hz']
      exact .append hz hz' y
    | cons d t =>
      by_cases hd : d = '='
      · subst hd
        have hyes (z : Text) (hz : IsMark z) :
            urlString (y ++ z) = unquoted (skipWhitespace t ++ z) := by
          rw [urlString_of_mark (h z hz) (t := t ++ z) (by rw [hdrop z hz, hrest]; rfl),
            skipWhitespace_append hz]
        rw [hyes z hz, hyes z' hz']
        exact alike_unquoted hz hz' _
      have hno (z : Text) (hz : IsMark z) : urlString (y ++ z) = y ++ z := by
        refine urlString_of_no_mark (h z hz) ?_
        rw [hdrop z hz, hrest, cons_append]
        exact fun he => hd (some.inj he)
      rw [hno z hz, hno z' hz']
      exact .append hz hz' y
  · have hu (z : Text) : startsWithCI (y ++ z) "u" = startsWithCI y "u" := by
      obtain ⟨a, y, rfl⟩ := exists_cons_of_ne_nil hy
      rw [show "u" = ['u'] from rfl, cons_append, cons_startsWithCI_cons,
        cons_startsWithCI_cons, startsWithCI_nil, startsWithCI_nil]
    have hurl' (z : Text) (hz : IsMark z) : ¬ startsWithCI (y ++ z) "url" := by
      rw [startsWithCI_url_append hz hy]
      exact hurl
    rw [urlString, if_neg (hurl' z hz), urlString, if_neg (hurl' z' hz'), hu, hu]
    split_ifs
    · exact .append hz hz' y
    · exact alike_unquoted hz hz' y

end Decoy

end ZeroProxy.Html
