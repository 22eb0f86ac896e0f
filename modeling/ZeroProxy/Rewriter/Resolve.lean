import ZeroProxy.Rewriter.Mark

/-!
# Resolving markers
-/

namespace ZeroProxy.Rewriter.Render

open ChainSplit List Option Render.Field Text

/-- How strings are quoted: in quotes, with control characters escaped. -/
structure Quoting where
  quote : Text → Text
  quote_ne_nil : ∀ t, quote t ≠ []
  sep_not_mem_quote : ∀ t, sep ∉ quote t

namespace Mark

/-! ## The portions copied -/

section Portions

variable {quote : Text → Text} {lead : Text} {text text' : Portion → Text}

theorem chainText_congr {chain : Span} {prev : Option Nat} {splits : List ChainSplit}
    (h : ∀ r ∈ chainPortions chain prev splits, text r = text' r) :
    chainText quote text chain prev splits = chainText quote text' chain prev splits := by
  induction splits generalizing prev with
  | nil => exact h _ (.head _)
  | cons s splits ih =>
    rw [chainPortions, forall_mem_cons, forall_mem_append] at h
    obtain ⟨hbase, hkey, hrest⟩ := h
    rw [chainText, chainText, ih hrest]
    refine congrArg (chainStep · _) ?_
    cases s with
    | method o key e call =>
      rw [splitText, splitText, hbase]
      cases key with
      | name n => rfl
      | expr k => rw [keyText, keyText, spanText, spanText, hkey _ (.head _)]
    | _ => exact hbase

theorem render_congr {m : Mark} (h : ∀ r ∈ m.portions, text r = text' r) :
    m.render quote lead text = m.render quote lead text' := by
  have hspan (s : Span) : (∀ r ∈ (span s).portions, text r = text' r) ↔
      spanText text s = spanText text' s := forall_mem_singleton
  have hargs (s : Option Span) : (∀ r ∈ (args s).portions, text r = text' r) ↔
      s.map (spanText text) = s.map (spanText text') := by
    cases s <;> simp [Field.portions, spanText]
  have hkey (key : ChainKey) : (∀ r ∈ (keyFields key).flatMap Field.portions, text r = text' r) →
      keyText quote text key = keyText quote text' key := by
    intro hk
    cases key with
    | name n => rfl
    | expr k => rw [keyText, keyText, spanText, spanText, hk _ (.head _)]
  cases m with
  | ochain chain splits => rw [render, render, chainText_congr h]
  | oget obj key =>
    simp only [portions, fields, flatMap_cons, forall_mem_append, hspan] at h
    simp [render, h.1, hkey key h.2]
  | ocall obj flags key args =>
    simp only [portions, fields, flatMap_cons, flatMap_append, forall_mem_append, hspan, hargs] at h
    simp [render, argsText, h.1, hkey key h.2.2.1, h.2.2.2.1]
  | _ =>
    simp only [portions, fields, flatMap_cons, forall_mem_append, hspan, hargs] at h
    simp [render, argsText, h]

theorem chainText_shift (a : Nat) (chain : Span) (prev : Option Nat) (splits : List ChainSplit) :
    chainText quote text (shiftSpan a chain) (prev.map (· - a)) (splits.map (shiftSplit a)) =
      chainText quote (fun r => text (r.shift a)) chain prev splits := by
  induction splits generalizing prev with
  | nil => rfl
  | cons s splits ih =>
    have hrest := ih (some s.baseEnd)
    rw [map_some, ← baseEnd_shift] at hrest
    rw [map_cons, chainText, chainText, hrest]
    refine congrArg (chainStep · _) ?_
    cases s with
    | method o key e call => cases key <;> rfl
    | _ => rfl

theorem render_shift (a : Nat) (m : Mark) : (m.shift a).render quote lead text =
    m.render quote lead fun r => text (r.shift a) := by
  have hargs (s : Option Span) : (s.map (shiftSpan a)).map (spanText text) =
      s.map (spanText fun r => text (r.shift a)) := by
    cases s <;> rfl
  have hkey (key : ChainKey) : keyText quote text (shiftKey a key) =
      keyText quote (fun r => text (r.shift a)) key := by
    cases key <;> rfl
  have hspan (s : Span) : spanText text (shiftSpan a s) = spanText (fun r => text (r.shift a)) s := rfl
  cases m with
  | ochain chain splits => exact congrArg (parenthesised lead) (chainText_shift a chain none splits)
  | _ => simp [shift, render, argsText, hargs, hkey, hspan]

end Portions

theorem chainPortions_wf {p chain : Span} (hchain : Within p chain) {splits : List ChainSplit}
    (hsplits : ∀ s ∈ splits, SplitWf p s) {prev : Option Nat} {i : Nat} (hi : chain.start < i)
    (hprev : ∀ h ∈ prev, chain.start < h ∧ h ≤ i) (hordered : Ordered chain.stop i splits) :
    ∀ r ∈ chainPortions chain prev splits, r.Wf p := by
  have hstop : ∀ {i : Nat} {splits : List ChainSplit}, Ordered chain.stop i splits → i ≤ chain.stop := by
    intro i splits h
    induction splits generalizing i with
    | nil => exact h
    | cons s splits ih => exact le_trans h.1 (le_trans h.2.1 (ih h.2.2))
  obtain ⟨hstart, hlt, hle⟩ := hchain
  induction splits generalizing prev i with
  | nil =>
    intro r hr
    obtain rfl := mem_singleton.1 hr
    refine ⟨⟨hstart, hlt, hle⟩, fun h hh => ?_⟩
    obtain ⟨h1, h2⟩ := hprev h hh
    exact ⟨h1, le_trans h2 hordered⟩
  | cons s splits ih =>
    rw [forall_mem_cons] at hsplits
    obtain ⟨h1, h2, h3⟩ := hordered
    have h4 := hstop h3
    rw [chainPortions, forall_mem_cons, forall_mem_append]
    refine ⟨⟨⟨hstart, by simp only [splitPortion]; omega, by simp only [splitPortion]; omega⟩,
      fun h hh => ?_⟩, ?_, ih hsplits.2 (by omega) (fun h hh => ?_) h3⟩
    · obtain ⟨h5, h6⟩ := hprev h hh
      exact ⟨h5, le_trans h6 h1⟩
    · -- The key, where it is an expression.
      intro r hr
      cases s with
      | method o key e call =>
        cases key with
        | name n => cases hr
        | expr k =>
          obtain rfl := mem_singleton.1 hr
          exact ⟨hsplits.1.2.2.2.2, nofun⟩
      | _ => cases hr
    · cases hh
      exact ⟨by omega, le_refl _⟩

theorem portions_wf {p : Span} {m : Mark} (h : m.Wf p) : ∀ r ∈ m.portions, r.Wf p := by
  have hspan {s : Span} (hs : Within p s) : (Portion.ofSpan s).Wf p := ⟨hs, fun h hh => by cases hh⟩
  have hfield {f : Field} (hf : f.Wf p) : ∀ r ∈ f.portions, r.Wf p := by
    intro r hr
    cases f with
    | span s =>
      obtain rfl := mem_singleton.1 hr
      exact hspan hf
    | args s =>
      obtain ⟨s', hs', rfl⟩ := mem_map.1 hr
      exact hspan (hf s' (mem_toList.1 hs'))
    | _ => cases hr
  have hfields : ∀ r ∈ m.fields.flatMap Field.portions, r.Wf p := by
    intro r hr
    obtain ⟨f, hf, hrf⟩ := mem_flatMap.1 hr
    exact hfield (h.fields f hf) r hrf
  cases m with
  | ochain chain splits =>
    have hall := h.fields
    simp only [fields, forall_mem_cons, List.forall_mem_map] at hall
    exact chainPortions_wf hall.1 hall.2 (Nat.lt_succ_self _) (fun h hh => by cases hh) h.shaped.2
  | _ => exact hfields

end Mark

open Mark

/-! ## No marker character is left -/

section Clean

variable {L : Quoting} {lead e obj key args value name op : Text}

theorem clean_stmtZero : sep ∉ stmtZero lead := by
  rw [stmtZero]
  split <;> decide

theorem clean_parenthesised (h : sep ∉ e) : sep ∉ parenthesised lead e := by
  rw [parenthesised]
  split
  · simp +decide [h]
  · exact h

theorem clean_atStatement (stmt : Bool) (h : sep ∉ e) : sep ∉ atStatement stmt lead e := by
  rw [atStatement]
  split
  · exact not_mem_append clean_stmtZero h
  · exact clean_parenthesised h

theorem clean_zero (stmt : Bool) (h : sep ∉ e) :
    sep ∉ (if stmt then stmtZero lead else []) ++ e := by
  split
  · exact not_mem_append clean_stmtZero h
  · exact h

theorem clean_assignText (stmt : Bool) (h : sep ∉ e) : sep ∉ assignText lead stmt e := by
  rw [assignText]
  split
  · simp +decide [h]
  · exact clean_zero stmt h

theorem clean_getGlobal : sep ∉ getGlobal L.quote name := by
  simp +decide [getGlobal, L.sep_not_mem_quote]

theorem clean_setGlobal (hv : sep ∉ value) : sep ∉ setGlobal L.quote name value := by
  simp +decide [setGlobal, L.sep_not_mem_quote, hv]

theorem clean_assignGlobal (logical : Bool) (ho : sep ∉ op) (hv : sep ∉ value) :
    sep ∉ assignGlobal L.quote name op logical value := by
  have hbin : sep ∉ op.dropLast := fun h => ho (dropLast_subset op h)
  rw [assignGlobal]
  split
  · simp +decide [clean_getGlobal, clean_setGlobal hv, hbin]
  · simp +decide [L.sep_not_mem_quote, clean_getGlobal, hbin, hv]

variable {ts : List Text}

theorem clean_foldl {f : Text → Text → Text} (hf : ∀ e t, sep ∉ e → sep ∉ t → sep ∉ f e t)
    (hts : ∀ t ∈ ts, sep ∉ t) (he : sep ∉ e) : sep ∉ ts.foldl f e := by
  induction ts generalizing e with
  | nil => exact he
  | cons t ts ih =>
    rw [forall_mem_cons] at hts
    exact ih hts.2 (hf e t he hts.1)

theorem clean_withDChain (hts : ∀ t ∈ ts, sep ∉ t) : sep ∉ withDChain L.quote ts name := by
  refine clean_foldl (fun e t he ht => ?_) hts (by decide)
  simp +decide [L.sep_not_mem_quote, he, ht]

theorem clean_withSetChain (hts : ∀ t ∈ ts, sep ∉ t) (hv : sep ∉ value) :
    sep ∉ withSetChain L.quote ts name value := by
  refine clean_foldl (fun e t he ht => ?_) hts (clean_setGlobal hv)
  simp +decide [L.sep_not_mem_quote, he, ht, hv]

theorem clean_withAssignChain (hts : ∀ t ∈ ts, sep ∉ t) (hv : sep ∉ value) :
    sep ∉ withAssignChain L.quote ts name op value := by
  refine clean_foldl (fun e t he ht => ?_) hts ?_
  · simp +decide [L.sep_not_mem_quote, he, ht, hv]
  · simp +decide [L.sep_not_mem_quote, hv]

theorem clean_memberAdapter (ho : sep ∉ obj) : sep ∉ memberAdapter L.quote obj name := by
  simp +decide [memberAdapter, L.sep_not_mem_quote, ho]

theorem clean_computedAdapter (ho : sep ∉ obj) (hk : sep ∉ key) :
    sep ∉ computedAdapter obj key := by
  simp +decide [computedAdapter, ho, hk]

theorem clean_helperCall {helper : Text} (hh : sep ∉ helper) {as : List Text}
    (has : ∀ a ∈ as, sep ∉ a) : sep ∉ helperCall helper as := by
  have hjoined : sep ∉ joined ',' (as.map fun a => lit "(" ++ a ++ lit ")") := by
    refine not_mem_joined (by decide) fun x hx => ?_
    obtain ⟨a, ha, rfl⟩ := mem_map.1 hx
    simp +decide [has a ha]
  refine not_mem_append (not_mem_append (not_mem_append hh ?_) hjoined) ?_ <;> decide

theorem clean_guardTemps {group : Nat} {a b c : Text} (h : guardTemps group = some (a, b, c)) :
    sep ∉ a ∧ sep ∉ b ∧ sep ∉ c := by
  rw [guardTemps] at h
  split at h
  · cases h
  · obtain ⟨rfl, rfl, rfl⟩ : _ ∧ _ ∧ _ := by simpa using h
    simp +decide [sep_not_mem_numeral]

theorem clean_computedGet (group : Nat) (ho : sep ∉ obj) (hk : sep ∉ key) :
    sep ∉ computedGet group obj key := by
  rw [computedGet]
  split
  · next a b c h =>
    obtain ⟨ha, hb, -⟩ := clean_guardTemps h
    simp +decide [ha, hb, ho, hk]
  · exact clean_helperCall (by decide) (by simp [ho, hk])

theorem clean_computedSet (group : Nat) (ho : sep ∉ obj) (hk : sep ∉ key) (hv : sep ∉ value) :
    sep ∉ computedSet group obj key value := by
  rw [computedSet]
  split
  · next a b c h =>
    obtain ⟨ha, hb, hc⟩ := clean_guardTemps h
    simp +decide [ha, hb, hc, ho, hk, hv]
  · exact clean_helperCall (by decide) (by simp [ho, hk, hv])

theorem clean_computedCall (group : Nat) (ho : sep ∉ obj) (hk : sep ∉ key) (ha : sep ∉ args) :
    sep ∉ computedCall group obj key args := by
  rw [computedCall]
  split
  · next a b c h =>
    obtain ⟨hta, htb, -⟩ := clean_guardTemps (filter_eq_some_iff.1 h).1
    simp +decide [hta, htb, ho, hk, ha]
  · simp +decide [ho, hk, ha]

theorem clean_cappedHeader {counter mid : Text} (semi : Nat) (hc : sep ∉ counter) (hm : sep ∉ mid) :
    sep ∉ cappedHeader counter mid semi := by
  have htake : sep ∉ mid.take (semi + 1) := fun h => hm (mem_of_mem_take h)
  have hdrop : sep ∉ mid.drop (semi + 1) := fun h => hm (mem_of_mem_drop h)
  simp +decide [cappedHeader, hc, htake, hdrop]

variable {text : Portion → Text}

theorem clean_chainText {chain : Span} {prev : Option Nat}
    {splits : List ChainSplit} (h : ∀ r ∈ chainPortions chain prev splits, sep ∉ text r) :
    sep ∉ chainText L.quote text chain prev splits := by
  induction splits generalizing prev with
  | nil => exact h _ (.head _)
  | cons s splits ih =>
    rw [chainPortions, forall_mem_cons, forall_mem_append] at h
    obtain ⟨hbase, hkey, hrest⟩ := h
    have hsplit : sep ∉ splitText L.quote text chain.start prev s := by
      cases s with
      | method o key e call =>
        have hkey' : sep ∉ keyText L.quote text key := by
          cases key with
          | name n => exact L.sep_not_mem_quote n
          | expr k => simp +decide [keyText, spanText, hkey _ (.head _)]
        simp +decide [splitText, chainCallee, hbase, hkey']
      | _ => exact hbase
    simp +decide [chainText, chainStep, hsplit, ih hrest]

/-- There is no marker character in what a form stands for. -/
theorem Mark.sep_not_mem_render {p : Span} {m : Mark} (hm : m.Wf p)
    (h : ∀ r ∈ m.portions, sep ∉ text r) : sep ∉ m.render L.quote lead text := by
  have hspan (s : Span) : (∀ r ∈ (span s).portions, sep ∉ text r) ↔ sep ∉ spanText text s :=
    forall_mem_singleton
  have hargs (s : Option Span) : (∀ r ∈ (args s).portions, sep ∉ text r) ↔
      sep ∉ argsText text s := by
    cases s <;> simp [Field.portions, argsText, spanText]
  have hkey {key : ChainKey} (hk : ∀ r ∈ (keyFields key).flatMap Field.portions, sep ∉ text r) :
      sep ∉ keyText L.quote text key := by
    cases key with
    | name n => exact L.sep_not_mem_quote n
    | expr k => simp +decide [keyText, spanText, hk _ (.head _)]
  have htemps {ts : List Text} (hts : (Field.temps ts).Wf p) : ∀ t ∈ ts, sep ∉ t :=
    fun t ht => (hts t ht).2.1
  have hreceiver {s : Option Span} (hs : sep ∉ argsText text s) :
      ∀ x ∈ (s.map (spanText text)).toList, sep ∉ x := by
    cases s with
    | none => exact nofun
    | some s => exact forall_mem_singleton.2 hs
  have hwf := hm.fields
  have hquote := L.sep_not_mem_quote
  cases m
  case text t => exact hwf _ (.head _)
  case ochain chain splits => exact clean_parenthesised (clean_chainText h)
  case oget obj key =>
    simp only [portions, fields, flatMap_cons, forall_mem_append, hspan] at h
    exact clean_parenthesised (by simp +decide [optionalGet, h.1, hkey h.2])
  case ocall obj flags key args =>
    simp only [portions, fields, flatMap_cons, flatMap_append, forall_mem_append, hspan, hargs] at h
    refine clean_parenthesised ?_
    simp +decide [optionalCall, h.1, hkey h.2.2.1, h.2.2.2.1, sep_not_mem_numeral]
  case globalDestr name ts =>
    have hname : sep ∉ name := hwf _ (.head _)
    have hts : ∀ t ∈ ts, sep ∉ t := fun t ht => by
      have hmem : temps ts ∈ (globalDestr name ts).fields := by
        cases ts with
        | nil => cases ht
        | cons t ts => exact .tail _ (.head _)
      exact htemps (hwf _ hmem) t ht
    rw [render]
    split
    · simp +decide [destrTarget, hname]
    · simp +decide [destrTarget, hname, clean_withDChain hts]
  -- The other forms have a fixed list of fields.
  all_goals
    simp only [fields, forall_mem_cons] at hwf
    simp only [portions, fields, flatMap_cons, forall_mem_append, hspan, hargs] at h
  case globalUpdate name op pre => cases pre <;> simp +decide [render, updateGlobal, hquote]
  case memberRef stmt obj prop => exact clean_zero stmt (clean_memberAdapter h.1)
  case varWset temp name value ts =>
    have hset := @clean_withSetChain L _ name _ (htemps hwf.2.2.2.1) h.2.2.1
    simp +decide [render, varDeclarator, show sep ∉ temp from hwf.1, hset]
  case wtref stmt ts name =>
    have hchain := @clean_withDChain L name _ (htemps hwf.1)
    rw [render, append_assoc]
    exact clean_zero stmt (not_mem_append hchain (by decide))
  case withSet name value ts => exact clean_withSetChain (htemps hwf.2.2.1) h.2.1
  case withAssign name op value logical ts =>
    exact clean_withAssignChain (htemps hwf.2.2.2.2.1) (by simp +decide [h.2.2.1])
  case cref stmt obj key => exact clean_zero stmt (clean_computedAdapter h.1 h.2.1)
  case deval args strict globalSite desc =>
    simp only [Field.Wf] at hwf
    refine clean_parenthesised ?_
    cases strict <;> cases globalSite <;> simp +decide [directEval, h.1, hwf]
  case rget obj key receiver =>
    refine clean_parenthesised (clean_helperCall (by decide) ?_)
    simp only [forall_mem_cons]
    exact ⟨h.1, h.2.1, hreceiver h.2.2.2.1⟩
  case rset obj key value receiver =>
    refine clean_parenthesised (clean_helperCall (by decide) ?_)
    simp only [forall_mem_cons]
    exact ⟨h.1, h.2.1, h.2.2.1, hreceiver h.2.2.2.2.1⟩
  case gopd obj key | rhas obj key => exact clean_helperCall (by decide) (by simp [h])
  case gopds obj | gown obj | okeys obj | rowk obj =>
    exact clean_helperCall (by decide) (forall_mem_singleton.2 h.1)
  case cdele obj key optional =>
    exact clean_helperCall (by cases optional <;> decide) (by simp [h])
  case sdele obj prop optional => cases optional <;> simp +decide [render, h.1, hquote]
  case forCap counter region =>
    rw [render]
    split
    · exact clean_cappedHeader _ hwf.1 h.2.1
    · exact h.2.1
  all_goals
    simp only [Field.Wf] at hwf
    simp +decide [render, clean_parenthesised, clean_atStatement, clean_assignText, clean_getGlobal,
      clean_setGlobal, clean_assignGlobal, clean_memberAdapter, clean_computedAdapter,
      clean_computedGet, clean_computedSet, clean_computedCall, setMember, getMember, callMethod,
      moduleUrlCall, varDeclarator, hquote, h, hwf]

end Clean

/-! ## Reading the text of a marker -/

/-- A portion of the source as `env` renders it. -/
def Env.text (env : Env) (r : Portion) : Text :=
  env.rangeOv r.start r.stop (r.head.map fun h => (r.start, h))

variable {p : Span}

theorem chainTemps_joined {ts : List Text} (h : (temps ts).Wf p) :
    chainTemps (joined '\x02' ts) = ts := by
  cases ts with
  | nil => rfl
  | cons t ts =>
    rw [chainTemps, split_joined (cons_ne_nil _ _) fun u hu => (h u hu).2.2, filter_eq_self]
    intro u hu
    rw [Bool.not_eq_true', isEmpty_eq_false_iff]
    exact (h u hu).1

/-! ### Optional chains -/

theorem splitEnd_members (hp : p.stop < 4294967296) {s : ChainSplit} (h : SplitWf p s) :
    splitEnd (splitMembers s) = some s.baseEnd := by
  cases s with
  | member e | plain e =>
    simp [splitEnd, splitMembers, member?, parseU32_numeral (lt_of_le_of_lt h.2 hp), baseEnd]
  | method o key e call =>
    have he := parseU32_numeral (lt_of_le_of_lt h.2.2.2.1 hp)
    cases key <;> simp [splitEnd, splitMembers, member?, he, baseEnd]

theorem mapM_splitEnd (hp : p.stop < 4294967296) {splits : List ChainSplit}
    (h : ∀ s ∈ splits, SplitWf p s) :
    (splits.map splitMembers).mapM splitEnd = some (splits.map baseEnd) := by
  induction splits with
  | nil => rfl
  | cons s splits ih =>
    rw [forall_mem_cons] at h
    simp [splitEnd_members hp h.1, ih h.2]

section Chain

variable {quote : Text → Text} {p : Span} {env : Env} (hp : p.stop ≤ env.len)
  (hlen : p.stop < 4294967296) (henv : ∀ s e, env.rangeOv s e none = env.range s e)

include hp hlen henv

theorem splitBase_members {s : ChainSplit} (h : SplitWf p s) (cs : Nat) (prev : Option Nat) :
    splitBase quote env cs (prev.map fun e => (cs, e)) s.baseEnd (splitMembers s) =
      some (splitText quote env.text cs prev s) := by
  cases s with
  | member e | plain e => rfl
  | method o key e call =>
    obtain ⟨-, ho, -, -, hkey⟩ := h
    have ho' := @parseU32_numeral o (by omega)
    cases key with
    | name n =>
      simp [splitBase, splitMembers, member?, ho', splitText, keyText, Env.text,
        splitPortion, splitObjStop]
    | expr k =>
      obtain ⟨-, hlt, hle⟩ := hkey
      have hstart := @parseU32_numeral k.start (by omega)
      have hstop := @parseU32_numeral k.stop (by omega)
      have hfits : k.start < k.stop ∧ k.stop ≤ env.len := ⟨hlt, by omega⟩
      simp [splitBase, splitMembers, member?, ho', hstart, hstop, hfits, splitText,
        keyText, spanText, Portion.ofSpan, Env.text, splitPortion, splitObjStop, henv]

theorem exists_splitBases (chain : Span) {splits : List ChainSplit}
    (hsplits : ∀ s ∈ splits, SplitWf p s) (prev : Option Nat) :
    ∃ bases, splitBases quote env chain.start (prev.map fun e => (chain.start, e))
        ((splits.map splitMembers).zip (splits.map baseEnd)) = some bases ∧
      bases.foldr chainStep (env.text ⟨(splits.map baseEnd).getLast?.or prev,
        chain.start, chain.stop⟩) = chainText quote env.text chain prev splits := by
  induction splits generalizing prev with
  | nil => exact ⟨[], rfl, rfl⟩
  | cons s splits ih =>
    rw [forall_mem_cons] at hsplits
    obtain ⟨bases, hbases, hfold⟩ := ih hsplits.2 (some s.baseEnd)
    have hbase := @splitBase_members quote p env hp hlen henv s hsplits.1 chain.start prev
    refine ⟨splitText quote env.text chain.start prev s :: bases, ?_, ?_⟩
    · rw [map_some] at hbases
      simp [splitBases, hbase, hbases]
    · have hlast : ((s :: splits).map baseEnd).getLast?.or prev =
          (splits.map baseEnd).getLast?.or (some s.baseEnd) := by
        rw [map_cons, getLast?_cons]
        cases (splits.map baseEnd).getLast? <;> rfl
      rw [foldr_cons, hlast, hfold, chainText]

theorem resolveOchain_parts {chain : Span} {splits : List ChainSplit} (hchain : Within p chain)
    (hsplits : ∀ s ∈ splits, SplitWf p s) (hne : splits ≠ []) :
    resolveOchain quote env (parts .ochain (ochain chain splits).fields) =
      (ochain chain splits).render quote env.lead env.text := by
  obtain ⟨-, hlt, hle⟩ := hchain
  have hstart := @parseU32_numeral chain.start (by omega)
  have hstop := @parseU32_numeral chain.stop (by omega)
  have htexts : (splits.map Field.split).flatMap Field.texts =
      splits.map fun s => joined ',' (splitMembers s) := by
    rw [flatMap_map]
    exact flatMap_pure_eq_map _ _
  have hfilter : (splits.map fun s => joined ',' (splitMembers s)).filter (!·.isEmpty) =
      splits.map fun s => joined ',' (splitMembers s) := by
    rw [filter_eq_self, List.forall_mem_map]
    intro s _
    rw [Bool.not_eq_true', isEmpty_eq_false_iff]
    exact ne_nil_of_mem (joined_splitMembers_comma s)
  have hsplit : (splits.map fun s => joined ',' (splitMembers s)).map (split (· == ',')) =
      splits.map splitMembers := by
    rw [List.map_map]
    exact map_congr_left fun s hs =>
      split_joined (splitMembers_ne_nil s) fun f hf => (splitMembers_clean (hsplits s hs) f hf).2
  have hends := @mapM_splitEnd p (by omega) splits hsplits
  obtain ⟨bases, hbases, hfold⟩ :=
    @exists_splitBases quote p env hp hlen henv chain splits hsplits none
  obtain ⟨last, hlast⟩ : ∃ last, (splits.map baseEnd).getLast? = some last := by
    have hne' : splits.map baseEnd ≠ [] := by simpa using hne
    exact ⟨_, getLast?_eq_some_getLast hne'⟩
  rw [hlast, some_or] at hfold
  have hchain : renderChain quote env (parts .ochain (ochain chain splits).fields) =
      some (chainText quote env.text chain none splits) := by
    have hout : ¬ (chain.start ≥ chain.stop ∨ chain.stop > env.len) := by omega
    have hparts : (parts .ochain (ochain chain splits).fields).drop 4 =
        (splits.map fun s => joined ',' (splitMembers s)) ++ [[]] := by
      rw [← htexts]
      rfl
    have h2 : member? (parts .ochain (ochain chain splits).fields) 2 = some chain.start := hstart
    have h3 : member? (parts .ochain (ochain chain splits).fields) 3 = some chain.stop := hstop
    have hnil : [([] : Text)].filter (!·.isEmpty) = [] := rfl
    rw [map_none] at hbases
    simp only [renderChain, hparts, filter_append, hfilter, hnil, append_nil, hsplit, h2,
      h3, hends, hout, hlast, hbases, bind_eq_bind, bind_some]
    exact congrArg some hfold
  rw [resolveOchain, hchain]
  rfl

end Chain

attribute [local simp] resolve num part parts fields texts spanAt argsAt keyAt isOne render argsText
  keyText objKey strictSpanAt resolveObjKey

/-- The text of a marker is resolved to what the form stands for. -/
theorem Mark.resolve_encode (L : Quoting) {m : Mark} (hm : m.Wf p) {t : Tag}
    (ht : m.tag = some t) {env : Env} (hp : p.stop ≤ env.len) (hlen : p.stop < 4294967296)
    (henv : ∀ s e, env.rangeOv s e none = env.range s e)
    (hcap : ∀ c r, m = forCap c r → ';' ∈ env.range r.start r.stop) :
    resolve L.quote env (partsOf m.encode) t = some (m.render L.quote env.lead env.text) := by
  have hspan (s : Span) (hs : Within p s) : parseU32 (numeral s.start) = some s.start ∧
      parseU32 (numeral s.stop) = some s.stop ∧
      ranged env s.start s.stop = some (spanText env.text s) ∧
      env.range s.start s.stop = spanText env.text s ∧ s.start < s.stop ∧ s.stop ≤ env.len := by
    obtain ⟨-, hlt, hle⟩ := hs
    have hrange : env.range s.start s.stop = spanText env.text s := (henv _ _).symm
    have hfits : s.start < s.stop ∧ s.stop ≤ env.len := ⟨hlt, le_trans hle hp⟩
    rw [ranged, if_pos hfits, hrange]
    exact ⟨parseU32_numeral (by omega), parseU32_numeral (by omega), rfl, rfl, hfits⟩
  -- Each field gives back what it was written from.
  have hword (s : Span) (h : span s ∈ m.fields) := hspan s (hm.fields (.span s) h)
  have hcount (n : Nat) (h : Field.count n ∈ m.fields) : parseU32 (numeral n) = some n :=
    parseU32_numeral (hm.fields (.count n) h)
  have htemps (ts : List Text) (h : Field.temps ts ∈ m.fields) : chainTemps (joined '\x02' ts) = ts :=
    chainTemps_joined (hm.fields _ h)
  -- Arguments may be left out: then both positions are 0.
  have hargs (s : Option Span) (h : args s ∈ m.fields) :
      parseU32 (numeral ((s.map Span.start).getD 0)) = some ((s.map Span.start).getD 0) ∧
      parseU32 (numeral ((s.map Span.stop).getD 0)) = some ((s.map Span.stop).getD 0) ∧
      ranged env ((s.map Span.start).getD 0) ((s.map Span.stop).getD 0) =
        s.map (spanText env.text) := by
    cases s with
    | none => exact ⟨rfl, rfl, by simp [ranged]⟩
    | some s =>
      obtain ⟨h1, h2, h3, -⟩ := hspan s (hm.fields (.args (some s)) h s rfl)
      exact ⟨h1, h2, h3⟩
  have hopen (x : Text) : (lit "(" ++ x).isEmpty = false := rfl
  have hflag (b : Bool) : ((if b then ['1'] else ['0']) == ['1']) = b := by
    cases b <;> rfl
  have hreceiver (s : Option Span) : (if s.isSome then (s.map (spanText env.text)).toList else []) =
      (s.map (spanText env.text)).toList := by
    cases s <;> rfl
  rw [partsOf_encode ht hm]
  cases m <;> cases ht
  case ochain chain splits =>
    have hwf := hm.fields
    simp only [fields, forall_mem_cons, List.forall_mem_map] at hwf
    exact congrArg some (resolveOchain_parts hp hlen henv hwf.1 hwf.2 hm.shaped.1)
  all_goals simp only [fields] at hword hcount htemps hargs
  case oget obj key =>
    cases key <;> simp only [keyFields] at hword <;>
      simp [resolveOget, keyFields, hword, L.quote_ne_nil, hopen]
  case ocall obj flags key args =>
    have hbyte : (some flags).filter (fun n => decide (n < 256)) = some flags :=
      filter_eq_some_iff.2 ⟨rfl, decide_eq_true hm.shaped⟩
    cases key <;> simp only [keyFields] at hword hcount hargs <;> simp [resolveOcall, ocallKey,
      keyFields, hword, hcount, hargs, L.quote_ne_nil, hopen, hbyte]
  case globalDestr name ts =>
    cases ts with
    | nil => simp [tempFields]
    | cons u ts =>
      have hne : joined '\x02' (u :: ts) ≠ [] := by
        have hwf := hm.fields (.temps (u :: ts)) (.tail _ (.head _))
        cases ts with
        | nil => simpa using (hwf u (.head _)).1
        | cons v ts => simp [joined_cons_cons]
      have hts := htemps (u :: ts) (.tail _ (.head _))
      simp [tempFields, hne, hts]
  case forCap counter region =>
    have hregion := hword region (by simp)
    obtain ⟨semi, hsemi⟩ := isSome_iff_exists.1 <| by
      obtain ⟨x, y, hxy⟩ := append_of_mem (hcap counter region rfl)
      rw [hregion.2.2.2.1] at hxy
      exact hxy ▸ isSome_find [';'] x y
    simp [resolveForCap, hregion, hsemi]
  case deval args strict globalSite desc =>
    have hclean : sep ∉ desc := hm.fields (.word desc) (by simp)
    have hdesc : trimEndMatches sep (joined sep [desc, []]) = desc := by
      rw [joined_cons_cons, joined_singleton, trimEndMatches,
        rdropWhile_concat_pos (· == sep) _ _ (beq_self_eq_true sep), rdropWhile_eq_self_iff]
      intro hne hlast
      exact hclean (beq_iff_eq.1 hlast ▸ getLast_mem hne)
    cases strict <;> cases globalSite <;> simp [resolveDeval, hargs, hdesc]
  case memberRef b _ _ | memberA b _ _ _ _ _ | wtref b _ _ | cassign b _ _ _ _ _ | cref b _ _
      | cget _ _ _ b | cset _ _ _ _ b | ccall _ _ _ _ b | sdele _ _ b | cdele _ _ b =>
    cases b <;> simp [resolveMemberRef, resolveMemberA, resolveWtref, resolveCassign, resolveCref,
      resolveCget, resolveCset, resolveCcall, resolveSdele, resolveCdele, Render.guardFields,
      guardFields, zeroIf, hword, hcount, htemps, hargs, hopen, assignText]
  all_goals simp [resolveVar, resolveObj, resolveMemberSet, resolveMethodCall, resolveRget,
    resolveRset, receiverAt, objOnly, hword, htemps, hargs, hflag, hreceiver, le_of_lt]

end ZeroProxy.Rewriter.Render
