import ZeroProxy.Worker.FetchCors

/-!
# The fields of a request

What the list of fields has that the worker makes, name by name.
-/

namespace ZeroProxy.Worker.Fetch

open Http List Option StableSort Text Headers
open Kernel (isInternal)

variable {n : Text} {es l : List Field} {t own : Bool}

/-! ## Names -/

/-- The names of the headers for the kernel that carry `Referer` and `Origin`. -/
def referrerNames : List Text := ["x-zp-referer", "x-zp-origin"]

/-- The other names that the worker sets before it makes the list. -/
def controlNames : List Text := ["x-zp-tab-id", "x-zp-entry-id", "x-zp-stream-isolation-key",
    "x-zp-runtime-token", "x-zp-relay-servers", "x-zp-document-request",
    "x-zp-arm-challenge-compat", "cookie"]

/-- The names that the worker adds to those of the page, hints apart. -/
def defaultNames : List Text := ["sec-fetch-mode", "sec-fetch-dest", "sec-fetch-site",
    "sec-fetch-storage-access", "sec-fetch-user", "accept-language",
    "priority", "accept", "user-agent"]

def writtenNames : List Text :=
  clientHintNavOrder ++ navRequestLine ++ navTail ++ subMapPlain ++ subMapUA ++ subMapAll ++
    subTail ++ defaultNames ++ referrerNames ++ controlNames

theorem token_of_mem_writtenNames (hn : n ∈ writtenNames) : isToken n ∧ lower n = n := by
  have hall : (writtenNames.all fun m => isToken m && lower m == m) := by decide
  have := List.all_eq_true.1 hall n hn
  rwa [Bool.and_eq_true, beq_iff_eq] at this

/-! ## Pushing -/

theorem seen_iff (hes : Plain es) : seen es n ↔ fieldValues n es ≠ [] := by
  rw [seen, List.any_eq_true, ne_eq, fieldValues_eq_nil_iff]
  push Not
  refine exists_congr fun e => and_congr_right fun he => ?_
  rw [beq_iff_eq, hes.jsLower_eq he, (hes e he).2]

theorem plain_pushOnce {e : Field} (hes : Plain es) (he : Plain [e]) :
    Plain (pushOnce t own es e) := by
  rw [pushOnce]
  split_ifs
  · exact hes
  · exact hes.append he

theorem fieldValues_pushOnce {e : Field} (hes : Plain es) (he : Plain [e]) :
    fieldValues n (pushOnce t own es e) =
      if fieldValues n es = [] ∧ refuses t own n = false then fieldValues n [e]
      else fieldValues n es := by
  have hname : jsLower e.1 = lower e.1 :=
    (he.jsLower_eq (.head _)).trans (he e (.head _)).2.symm
  rw [pushOnce, hname]
  by_cases hn : lower e.1 = n
  · rw [hn]
    by_cases hes' : fieldValues n es = []
    · have hseen : seen es n = false := by
        rw [← Bool.not_eq_true, seen_iff hes, not_not]
        exact hes'
      rw [hseen, Bool.false_or]
      cases hr : refuses t own n with
      | true => rw [if_pos rfl, if_neg fun h => Bool.noConfusion h.2]
      | false =>
        rw [if_neg Bool.false_ne_true, if_pos ⟨hes', rfl⟩, fieldValues_append, hes', nil_append]
    · rw [(seen_iff hes).2 hes', Bool.true_or, if_pos rfl, if_neg fun h => hes' h.1]
  · have hother : fieldValues n [e] = [] := by
      rw [fieldValues_cons, if_neg hn, fieldValues_nil]
    rw [hother]
    have hkeep : fieldValues n (es ++ [e]) = fieldValues n es := by
      rw [fieldValues_append, hother, append_nil]
    split_ifs with _ h h
    · exact h.1
    · rfl
    · rw [hkeep]; exact h.1
    · exact hkeep

theorem plain_pushAll (hes : Plain es) (hl : Plain l) : Plain (pushAll t own es l) := by
  induction l generalizing es with
  | nil => exact hes
  | cons e l ih =>
    have he : Plain [e] := hl.sublist (singleton_sublist.2 (.head _))
    exact ih (plain_pushOnce hes he) (hl.sublist (sublist_cons_self e l))

theorem fieldValues_pushAll (hes : Plain es) (hl : Plain l) : fieldValues n (pushAll t own es l) =
      if fieldValues n es = [] ∧ refuses t own n = false then (fieldValues n l).head?.toList
      else fieldValues n es := by
  induction l generalizing es with
  | nil =>
    split_ifs with h
    · exact h.1
    · rfl
  | cons e l ih =>
    have he : Plain [e] := hl.sublist (singleton_sublist.2 (.head _))
    have hstep := @fieldValues_pushOnce n es t own e hes he
    rw [pushAll]
    change fieldValues n (pushAll t own (pushOnce t own es e) l) = _
    rw [ih (plain_pushOnce hes he) (hl.sublist (sublist_cons_self e l)), hstep,
      fieldValues_cons, fieldValues_cons]
    by_cases hfree : fieldValues n es = [] ∧ refuses t own n = false
    · rw [if_pos hfree, if_pos hfree]
      by_cases hn : lower e.1 = n
      · rw [if_pos hn, if_pos hn]
        rfl
      · rw [if_neg hn, if_neg hn, if_pos ⟨rfl, hfree.2⟩]
    · rw [if_neg hfree, if_neg hfree, if_neg hfree]

/-! ## The headers of the page -/

variable {h : Headers}

theorem nodup_headerNames : (headerNames h).Nodup :=
  (perm_insertionSort _ _).nodup_iff.2 (nodup_dedup _)

theorem values_eq_nil_iff (hn : lower n = n) : h.values n = [] ↔ n ∉ headerNames h := by
  rw [values, hn, map_eq_nil_iff, filter_eq_nil_iff, mem_headerNames, List.mem_map]
  push Not
  simp only [beq_iff_eq, ne_eq]

theorem plain_entries (hp : Plain h.list) : Plain (entries h) := by
  intro e he
  obtain ⟨m, hm, he⟩ := mem_flatMap.1 he
  obtain ⟨e', he', rfl⟩ := mem_map.1 (mem_headerNames.1 hm)
  have hname : e.1 = e'.1 := by
    split_ifs at he
    · obtain ⟨v, _, rfl⟩ := mem_map.1 he
      rfl
    · rw [mem_singleton.1 he]
  rw [hname]
  exact hp e' he'

variable {names : List Text}

theorem fieldValues_flatMap {f : Text → List Field} (hnodup : names.Nodup)
    (hf : ∀ m ∈ names, ∀ e ∈ f m, lower e.1 = m) :
    fieldValues n (names.flatMap f) = if n ∈ names then fieldValues n (f n) else [] := by
  induction names with
  | nil => rfl
  | cons m names ih =>
    rw [nodup_cons] at hnodup
    rw [flatMap_cons, fieldValues_append, ih hnodup.2 fun m' hm' => hf m' (.tail _ hm')]
    by_cases hn : n = m
    · subst hn
      rw [if_neg hnodup.1, if_pos (.head _), append_nil]
    · have hnil : fieldValues n (f m) = [] := fieldValues_eq_nil_iff.2 fun e he h' =>
        hn (h'.symm.trans (hf m (.head _) e he))
      rw [hnil]
      refine if_congr ?_ rfl rfl
      rw [mem_cons, or_iff_right hn]

theorem fieldValues_entries (hp : Plain h.list) (hn : lower n = n) :
    fieldValues n (entries h) = if n = "set-cookie" then h.values n else (h.get n).toList := by
  have hlower {m : Text} (hm : m ∈ headerNames h) : lower m = m := by
    obtain ⟨e, he, rfl⟩ := mem_map.1 (mem_headerNames.1 hm)
    exact (hp e he).2
  rw [entries, fieldValues_flatMap nodup_headerNames]
  · by_cases hmem : n ∈ headerNames h
    · rw [if_pos hmem]
      by_cases hset : n = "set-cookie"
      · rw [if_pos hset, if_pos hset, fieldValues, filter_eq_self.2, List.map_map]
        · exact map_id _
        · intro e he
          obtain ⟨v, _, rfl⟩ := mem_map.1 he
          exact beq_iff_eq.2 hn
      · rw [if_neg hset, if_neg hset, fieldValues_cons, if_pos hn]
        have hne : h.values n ≠ [] := fun hnil => (values_eq_nil_iff hn).1 hnil hmem
        obtain ⟨v, vs, hv⟩ := exists_cons_of_ne_nil hne
        rw [Headers.get, hv]
        rfl
    · have hnil := (values_eq_nil_iff hn).2 hmem
      rw [if_neg hmem, hnil, get_eq_none hnil]
      exact (ite_self _).symm
  · intro m hm e he
    split_ifs at he
    · obtain ⟨v, _, rfl⟩ := mem_map.1 he
      exact hlower hm
    · rw [mem_singleton.1 he]
      exact hlower hm

/-! ## The headers for the kernel -/

variable {urls : Urls} {x : HeaderContext} {cookie : Text} {u : Line} {o : Options}

variable {e : Text × Option Text}

theorem lower_mem_of_all {l : List (Text × Option Text)}
    (hl : l.all fun e => names.contains (lower e.1)) (he : e ∈ l) :
    lower e.1 ∈ names := contains_iff_mem.1 (all_eq_true.1 hl e he)

theorem name_of_mem_setUnlessEmpty {name value : Text}
    (he : e ∈ setUnlessEmpty name value) : e.1 = name := by
  rw [setUnlessEmpty] at he
  split_ifs at he
  · cases he
  · rw [mem_singleton.1 he]

theorem name_of_mem_referrerEdits (he : e ∈ referrerEdits urls x u o) :
    lower e.1 ∈ referrerNames := by
  rcases mem_append.1 he with he | he
  · rcases mem_append.1 he with he | he
    · exact lower_mem_of_all rfl he
    · rw [name_of_mem_setUnlessEmpty he]
      decide
  · obtain ⟨v, _, rfl⟩ := map_eq_some_iff.1 (mem_toList.1 he)
    exact contains_iff_mem.1 rfl

theorem name_of_mem_controlEdits (he : e ∈ controlEdits x cookie o) : lower e.1 ∈ controlNames := by
  rcases mem_append.1 he with he | he
  · rcases mem_append.1 he with he | he
    · rcases mem_append.1 he with he | he
      · rcases mem_append.1 he with he | he
        · exact lower_mem_of_all rfl he
        · split_ifs at he
          · exact lower_mem_of_all rfl he
          · cases he
      · split_ifs at he
        · exact lower_mem_of_all rfl he
        · cases he
    · exact lower_mem_of_all rfl he
  · rw [name_of_mem_setUnlessEmpty he]
    decide

theorem values_dropLeak_of_ne {proxyOrigin name : Text} (hne : lower n ≠ lower name) :
    (dropLeak proxyOrigin h name).values n = h.values n := by
  rw [dropLeak]
  split
  · rfl
  · split_ifs
    · exact values_delete_of_ne hne
    · rfl

theorem plain_controlHeaders (hp : Plain o.headers.list) :
    Plain (controlHeaders urls x cookie u o).list := by
  have hdrop {h : Headers} (hp : Plain h.list) (name : Text) :
      Plain (dropLeak x.proxyOrigin h name).list := by
    rw [dropLeak]
    split
    · exact hp
    · split_ifs
      · exact hp.sublist filter_sublist
      · exact hp
  rw [controlHeaders]
  refine plain_edits (hdrop (hdrop ?_ _) _) fun e he =>
    token_of_mem_writtenNames (mem_append_right _ (name_of_mem_controlEdits he))
  exact plain_edits hp fun e he => token_of_mem_writtenNames
    (mem_append_left _ (mem_append_right _ (name_of_mem_referrerEdits he)))

theorem values_controlHeaders_of_ne (hn : lower n = n) (href : n ∉ referrerNames)
    (hleak : n ∉ ["referer".toList, "origin"]) (hcontrol : n ∉ controlNames) :
    (controlHeaders urls x cookie u o).values n = o.headers.values n := by
  rw [controlHeaders, values_edits_of_ne fun e he h' => hcontrol ?_, foldl_cons,
    foldl_cons, foldl_nil, values_dropLeak_of_ne, values_dropLeak_of_ne,
    values_edits_of_ne fun e he h' => href ?_]
  · rw [← hn, ← h']
    exact name_of_mem_referrerEdits he
  · rw [hn]
    exact fun h' => hleak (h' ▸ by decide)
  · rw [hn]
    exact fun h' => hleak (h' ▸ by decide)
  · rw [← hn, ← h']
    exact name_of_mem_controlEdits he

theorem values_controlHeaders_of_referrer (hn : lower n = n) (href : n ∈ referrerNames) :
    (controlHeaders urls x cookie u o).values n =
      ((referrerEdits urls x u o).foldl edit o.headers).values n := by
  have hne {names : List Text} (hnames : referrerNames.all
      fun m => !names.contains m) : n ∉ names := by
    have := all_eq_true.1 hnames n href
    rwa [Bool.not_eq_true', ← Bool.not_eq_true, contains_iff_mem] at this
  rw [controlHeaders, values_edits_of_ne fun e he h' => ?_, foldl_cons,
    foldl_cons, foldl_nil, values_dropLeak_of_ne, values_dropLeak_of_ne]
  · rw [hn]
    exact fun h' => @hne ["referer"] (by decide) (h' ▸ by decide)
  · rw [hn]
    exact fun h' => @hne ["origin"] (by decide) (h' ▸ by decide)
  · refine @hne controlNames (by decide) ?_
    rw [← hn, ← h']
    exact name_of_mem_controlEdits he

def unlessEmpty (value : Text) : List Text := if value.isEmpty then [] else [normalize value]

theorem values_referer : (controlHeaders urls x cookie u o).values "x-zp-referer" =
    unlessEmpty x.referer := by
  rw [values_controlHeaders_of_referrer (by decide) (by decide), values_edits,
    referrerEdits, setUnlessEmpty, unlessEmpty]
  cases sentOrigin urls u o <;> split_ifs <;> rfl

theorem values_origin : (controlHeaders urls x cookie u o).values "x-zp-origin" =
    ((sentOrigin urls u o).map fun v => Http.normalize v.1).toList := by
  rw [values_controlHeaders_of_referrer (by decide) (by decide), values_edits,
    referrerEdits, setUnlessEmpty]
  cases sentOrigin urls u o <;> split_ifs <;> rfl

theorem values_cookie : (controlHeaders urls x cookie u o).values "cookie" =
    unlessEmpty cookie := by
  rw [controlHeaders, values_edits, controlEdits, setUnlessEmpty, unlessEmpty]
  split_ifs <;> rfl

/-! ## The list as it grows -/

/-- A list after fields with some of the names were pushed: other names, names that it had and
    names that are refused are as they were. -/
structure Grows (t own : Bool) (names : List Text) (es es' : List Field) : Prop where
  plain : Plain es'
  kept : ∀ n, fieldValues n es ≠ [] ∨ refuses t own n ∨ n ∉ names →
    fieldValues n es' = fieldValues n es

theorem Grows.trans {es es' es'' : List Field} (h : Grows t own names es es')
    (h' : Grows t own names es' es'') : Grows t own names es es'' := by
  refine ⟨h'.plain, fun n hn => ?_⟩
  have hkept := h.kept n hn
  rw [h'.kept n (hn.imp_left fun hne => hkept ▸ hne), hkept]

theorem Grows.refl (hes : Plain es) : Grows t own names es es :=
  ⟨hes, fun _ _ => rfl⟩

theorem grows_pushAll (hes : Plain es) (hl : Plain l)
    (hnames : ∀ e ∈ l, e.1 ∈ names) : Grows t own names es (pushAll t own es l) := by
  refine ⟨plain_pushAll hes hl, fun n hn => ?_⟩
  rw [fieldValues_pushAll hes hl]
  split_ifs with hfree
  · rcases hn with hne | hrefused | hother
    · exact absurd hfree.1 hne
    · rw [hrefused] at hfree
      cases hfree.2
    · have hnil : fieldValues n l = [] := fieldValues_eq_nil_iff.2 fun e he h' =>
        hother (h' ▸ (hl e he).2.symm ▸ hnames e he)
      rw [hnil, hfree.1]
      rfl
  · rfl

def Defaults (l : List Field) : Prop := ∀ e ∈ l, e.1 ∈ defaultNames

theorem Defaults.of_all (h : (l.all fun e => defaultNames.contains e.1)) : Defaults l :=
  fun e he => contains_iff_mem.1 (all_eq_true.1 h e he)

theorem Defaults.append {l' : List Field} (h : Defaults l) (h' : Defaults l') : Defaults (l ++ l') :=
  fun e he => (mem_append.1 he).elim (h e) (h' e)

theorem Defaults.ite {c : Prop} [Decidable c] (h : Defaults l) :
    Defaults (if c then l else []) := by
  split_ifs
  · exact h
  · exact .of_all rfl

theorem defaults_defaultFields : Defaults (defaultFields x o) :=
  (((Defaults.ite (.of_all rfl)).append (.of_all rfl)).append (.ite (.of_all rfl))).append
    (.ite (.of_all rfl)) |>.append (.of_all rfl)

theorem Defaults.plain (h : Defaults l) : Plain l := by
  intro e he
  refine token_of_mem_writtenNames ?_
  simp only [writtenNames, mem_append]
  exact .inl (.inl (.inr (h e he)))

theorem grows_defaults (hes : Plain es) (hl : Defaults l) :
    Grows t false defaultNames es (pushAll t false es l) :=
  grows_pushAll hes hl.plain hl

theorem grows_pushSite (hes : Plain es) :
    Grows t false defaultNames es (pushSite urls t x u o es) := by
  rw [pushSite]
  split_ifs
  · exact .refl hes
  all_goals exact grows_defaults hes (.of_all rfl)

def pageEntries (t : Bool) (h : Headers) : List Field :=
  pushAll t false (pushOnce t false [] ("user-agent", targetUserAgent)) (entries h)

def beforeHints (urls : Urls) (x : HeaderContext) (cookie : Text) (u : Line) (o : Options) :
    List Field :=
  let t := potentiallyTrustworthyURL urls u.1
  pushAll t false (pushSite urls t x u o (pushAll t false
    (pageEntries t (controlHeaders urls x cookie u o))
    [("sec-fetch-mode", secFetchMode x o), ("sec-fetch-dest", secFetchDest x o)]))
    (defaultFields x o)

theorem headerEntries_eq (hrequest : x.request = none) (hrange : x.noRange = false) :
    headerEntries urls x cookie u o = pushAll (potentiallyTrustworthyURL urls u.1) true
      (beforeHints urls x cookie u o) (hintFields urls x u) := by
  have hall (l : List Field) : withoutRange x.noRange l = l := by
    rw [withoutRange, hrange]
    exact filter_eq_self.2 fun _ _ => rfl
  have hnone : requestFields x = [] := by
    rw [requestFields, hrequest]
  rw [headerEntries, hall, hnone, beforeHints, pageEntries]
  dsimp only [pushAll, foldl_nil]

theorem plain_userAgent : Plain [("user-agent", targetUserAgent)] := by
  intro e he
  rw [mem_singleton.1 he]
  exact ⟨rfl, rfl⟩

theorem pushOnce_userAgent : pushOnce t false [] ("user-agent", targetUserAgent) =
    [("user-agent".toList, targetUserAgent)] := by
  have hpush : (seen [] (jsLower "user-agent") ||
      refuses t false (jsLower "user-agent")) = false := by
    cases t <;> decide
  rw [pushOnce, hpush, if_neg Bool.false_ne_true, nil_append]

theorem plain_pageEntries (hp : Plain h.list) : Plain (pageEntries t h) := by
  rw [pageEntries, pushOnce_userAgent]
  exact plain_pushAll plain_userAgent (plain_entries hp)

theorem fieldValues_pageEntries (hp : Plain h.list) : fieldValues n (pageEntries t h) =
    if n = "user-agent" then [targetUserAgent]
    else if refuses t false n then [] else (fieldValues n (entries h)).head?.toList := by
  have hagent : fieldValues n [("user-agent", targetUserAgent)] =
      if n = "user-agent" then [targetUserAgent] else [] := by
    rw [fieldValues_cons]
    exact if_congr eq_comm rfl rfl
  rw [pageEntries, pushOnce_userAgent, fieldValues_pushAll plain_userAgent (plain_entries hp),
    hagent]
  by_cases hn : n = "user-agent"
  · rw [if_pos hn, if_pos hn, if_neg fun h => cons_ne_nil _ _ h.1]
  · rw [if_neg hn, if_neg hn]
    cases refuses t false n with
    | true => rw [if_neg fun h => Bool.noConfusion h.2, if_pos rfl]
    | false => rw [if_pos ⟨rfl, rfl⟩, if_neg Bool.false_ne_true]

theorem grows_beforeHints (hp : Plain o.headers.list) :
    Grows (potentiallyTrustworthyURL urls u.1) false defaultNames
      (pageEntries (potentiallyTrustworthyURL urls u.1) (controlHeaders urls x cookie u o))
      (beforeHints urls x cookie u o) := by
  have h₁ := @grows_defaults _ _ (potentiallyTrustworthyURL urls u.1)
    (@plain_pageEntries (potentiallyTrustworthyURL urls u.1) _
      (@plain_controlHeaders urls x cookie u o hp))
    (.of_all (l := [("sec-fetch-mode", secFetchMode x o),
      ("sec-fetch-dest", secFetchDest x o)]) rfl)
  have h₂ := h₁.trans (@grows_pushSite _ (potentiallyTrustworthyURL urls u.1) urls x u o h₁.plain)
  exact h₂.trans (grows_defaults h₂.plain defaults_defaultFields)

/-! ## Hints -/

theorem mem_navOrder_of_sent (hn : n ∈ sentHints urls x.prefs x.place u) :
    n ∈ clientHintNavOrder := by
  have hdefaults : (clientHintDefaults.all clientHintNavOrder.contains) := by
    decide
  rw [sentHints] at hn
  split_ifs at hn
  · rcases mem_append.1 hn with hn | hn
    · exact contains_iff_mem.1 (all_eq_true.1 hdefaults n hn)
    · rw [highEntropyHintsFor] at hn
      split_ifs at hn
      · cases hn
      · exact mem_of_mem_filter hn
  · cases hn

theorem token_of_mem_navOrder (hn : n ∈ clientHintNavOrder) : isToken n ∧ lower n = n := by
  refine token_of_mem_writtenNames ?_
  simp [writtenNames, mem_append, hn, true_or]

theorem plain_hintFields : Plain (hintFields urls x u) := by
  intro e he
  obtain ⟨n, hn, he⟩ := mem_filterMap.1 he
  obtain ⟨v, _, rfl⟩ := map_eq_some_iff.1 he
  exact token_of_mem_navOrder (mem_navOrder_of_sent hn)

theorem fieldValues_hintFields : (fieldValues n (hintFields urls x u)).head?.toList =
    if n ∈ sentHints urls x.prefs x.place u then (clientHintValue x.device n).toList else [] := by
  have hvalue {v : Text} (hv : v ∈ fieldValues n (hintFields urls x u)) :
      n ∈ sentHints urls x.prefs x.place u ∧ clientHintValue x.device n = some v := by
    obtain ⟨e, he, rfl⟩ := mem_map.1 hv
    obtain ⟨he, hname⟩ := mem_filter.1 he
    rw [beq_iff_eq, (plain_hintFields e he).2] at hname
    obtain ⟨m, hm, he⟩ := mem_filterMap.1 he
    obtain ⟨v, hvalue, rfl⟩ := map_eq_some_iff.1 he
    obtain rfl : m = n := hname
    exact ⟨hm, hvalue⟩
  cases hl : fieldValues n (hintFields urls x u) with
  | cons v vs =>
    obtain ⟨hn, hv⟩ := hvalue (hl ▸ .head _ : v ∈ _)
    rw [if_pos hn, hv]
    rfl
  | nil =>
    split_ifs with hn
    · cases hv : clientHintValue x.device n with
      | none => rfl
      | some v =>
        -- A hint with a value has a field.
        have he : (n, v) ∈ hintFields urls x u :=
          mem_filterMap.2 ⟨n, hn, by rw [hv]; rfl⟩
        have := fieldValues_ne_nil he
        rw [(plain_hintFields _ he).2] at this
        exact absurd hl this
    · rfl

/-! ## The order -/

variable {m : Text}

theorem mem_addNew {order : List Text} (h : m ∈ addNew order n) : m ∈ order ∨ m = n := by
  rw [addNew] at h
  split_ifs at h
  · exact .inl h
  · exact (mem_append.1 h).imp_right mem_singleton.1

theorem mem_foldl_addNew {order : List Text} (h : m ∈ names.foldl addNew order) :
    m ∈ order ∨ m ∈ names := by
  induction names generalizing order with
  | nil => exact .inl h
  | cons n names ih =>
    rcases ih h with h | h
    · refine (mem_addNew h).imp_right fun hm => ?_
      rw [hm]
      exact .head _
    · exact .inr (.tail _ h)

theorem mem_headerOrder {template : List Text} (h : m ∈ headerOrder template es) :
    m ∈ template ∨ ∃ e ∈ es, jsLower e.1 = m := by
  have hnames {m : Text} (hm : m ∈ (sortedEntries template es).map fun e => jsLower e.1) :
      ∃ e ∈ es, jsLower e.1 = m := by
    obtain ⟨e, he, rfl⟩ := mem_map.1 hm
    exact ⟨e, mem_sortByKey.1 he, rfl⟩
  have hfold (starred rest order : List Text) (h : m ∈ rest.foldl (fun order name =>
      if name = "*".toList then starred.foldl addNew order else addNew order name) order) :
      m ∈ order ∨ m ∈ rest ∨ m ∈ starred := by
    induction rest generalizing order with
    | nil => exact .inl h
    | cons n rest ih =>
      rcases ih _ h with h | h | h
      · dsimp only at h
        split_ifs at h
        · exact (mem_foldl_addNew h).imp_right .inr
        · refine (mem_addNew h).imp_right fun hm => .inl ?_
          rw [hm]
          exact .head _
      · exact .inr (.inl (.tail _ h))
      · exact .inr (.inr h)
  rcases mem_foldl_addNew h with h | h
  · rcases hfold _ _ _ h with h | h | h
    · cases h
    · exact .inl h
    · exact .inr (hnames (mem_of_mem_filter h))
  · exact .inr (hnames h)

theorem mem_writtenNames_of_template {hints : List Text}
    (hn : n ∈ requestHeaderTemplate o hints) : n ∈ writtenNames := by
  have hhints := @mem_of_mem_filter _ hints.contains n clientHintNavOrder
  rw [requestHeaderTemplate] at hn
  dsimp only at hn
  simp only [writtenNames, mem_append]
  split_ifs at hn
  all_goals simp only [mem_append] at hn
  · rcases hn with (h | h) | h
    · simp only [h, true_or, or_true]
    · simp only [hhints h, true_or]
    · simp only [h, true_or, or_true]
  · rcases hn with (h | h) | h
    · simp only [hhints h, true_or]
    all_goals simp only [h, true_or, or_true]
  all_goals rcases hn with h | h <;> simp only [h, true_or, or_true]

theorem token_of_mem_requestedOrder (hp : Plain (headerEntries urls x cookie u o))
    (hn : n ∈ requestedOrder urls x cookie u o) : isToken n ∧ lower n = n := by
  rcases mem_headerOrder (mem_of_mem_filter hn) with hn | ⟨e, he, rfl⟩
  · exact token_of_mem_writtenNames (mem_writtenNames_of_template hn)
  · rw [hp.jsLower_eq he]
    exact hp e he

/-! ## What the kernel gets -/

theorem fieldValues_sortedEntries {template : List Text} (hes : Plain es) :
    fieldValues n (sortedEntries template es) = fieldValues n es := by
  rw [fieldValues, sortedEntries, filter_sortByKey]
  · rfl
  · intro a ha b hb hna hnb
    rw [hes.jsLower_eq ha, hes.jsLower_eq hb, ← (hes a ha).2, ← (hes b hb).2, beq_iff_eq.1 hna,
      beq_iff_eq.1 hnb]

theorem fieldValues_handedHeaders (hp : Plain (headerEntries urls x cookie u o))
    (hn : n ≠ "x-zp-header-order") :
    fieldValues n (handedHeaders urls x cookie u o) =
      fieldValues n (headerEntries urls x cookie u o) := by
  rw [handedHeaders, fieldValues_append, fieldValues_sortedEntries hp, fieldValues_cons,
    if_neg fun h => hn h.symm, fieldValues_nil, append_nil]

theorem swOrder_handedHeaders (hp : Plain (headerEntries urls x cookie u o)) :
    (Kernel.sidechannel (handedHeaders urls x cookie u o)).swOrder =
      some (requestedOrder urls x cookie u o) := by
  have hname : lower "X-ZP-Header-Order" = "x-zp-header-order" := by decide
  rw [Kernel.swOrder_sidechannel, handedHeaders, fieldValues_append,
    fieldValues_singleton _ hname, getLast?_concat, map_some,
    Codec.parseHeaderOrder_intercalate fun n hn => token_of_mem_requestedOrder hp hn]

/-! ## The fields of a `fetch` -/

section

variable (hrequest : x.request = none) (hrange : x.noRange = false)
  (hp : Plain o.headers.list)

include hrequest hrange hp

theorem plain_headerEntries : Plain (headerEntries urls x cookie u o) := by
  rw [headerEntries_eq hrequest hrange]
  exact plain_pushAll (grows_beforeHints hp).plain plain_hintFields

theorem fieldValues_headerEntries : fieldValues n (headerEntries urls x cookie u o) =
    if fieldValues n (beforeHints urls x cookie u o) = [] ∧
        refuses (potentiallyTrustworthyURL urls u.1) true n = false then
      if n ∈ sentHints urls x.prefs x.place u then (clientHintValue x.device n).toList else []
    else fieldValues n (beforeHints urls x cookie u o) := by
  rw [headerEntries_eq hrequest hrange, fieldValues_pushAll (grows_beforeHints hp).plain
    plain_hintFields, fieldValues_hintFields]

theorem fieldValues_userAgent :
    fieldValues "user-agent" (headerEntries urls x cookie u o) = [targetUserAgent] := by
  have hpage := @fieldValues_pageEntries "user-agent" (potentiallyTrustworthyURL urls u.1) _
    (@plain_controlHeaders urls x cookie u o hp)
  rw [if_pos rfl] at hpage
  have hbefore := (@grows_beforeHints urls x cookie u o hp).kept "user-agent"
    (.inl (hpage ▸ cons_ne_nil _ _))
  rw [fieldValues_headerEntries hrequest hrange hp, hbefore, hpage,
    if_neg fun h => cons_ne_nil _ _ h.1]

theorem fieldValues_of_accepted (hn : n ≠ "user-agent")
    (hrefuse : refuses (potentiallyTrustworthyURL urls u.1) false n = false)
    (hcase : (fieldValues n (entries (controlHeaders urls x cookie u o))).head?.toList ≠ [] ∨
      (n ∉ defaultNames ∧ n ∉ clientHintNavOrder)) :
    fieldValues n (headerEntries urls x cookie u o) =
      (fieldValues n (entries (controlHeaders urls x cookie u o))).head?.toList := by
  have hpage := @fieldValues_pageEntries n (potentiallyTrustworthyURL urls u.1) _
    (@plain_controlHeaders urls x cookie u o hp)
  rw [if_neg hn, hrefuse, if_neg Bool.false_ne_true] at hpage
  have hbefore := (@grows_beforeHints urls x cookie u o hp).kept n
    (hcase.imp (fun h => hpage ▸ h) fun h => .inr h.1)
  rw [fieldValues_headerEntries hrequest hrange hp, hbefore, hpage]
  split_ifs with hfree hsent
  · rcases hcase with hne | hother
    · exact absurd hfree.1 hne
    · exact absurd (mem_navOrder_of_sent hsent) hother.2
  · exact hfree.1.symm
  · rfl

theorem fieldValues_of_refused (hn : n ≠ "user-agent")
    (hrefuse : refuses (potentiallyTrustworthyURL urls u.1) false n) :
    fieldValues n (headerEntries urls x cookie u o) =
      if refuses (potentiallyTrustworthyURL urls u.1) true n = false ∧
          n ∈ sentHints urls x.prefs x.place u then (clientHintValue x.device n).toList else [] := by
  have hpage := @fieldValues_pageEntries n (potentiallyTrustworthyURL urls u.1) _
    (@plain_controlHeaders urls x cookie u o hp)
  rw [if_neg hn, hrefuse, if_pos rfl] at hpage
  have hbefore := (@grows_beforeHints urls x cookie u o hp).kept n (.inr (.inl hrefuse))
  rw [fieldValues_headerEntries hrequest hrange hp, hbefore, hpage, ite_and, ite_and, if_pos rfl]

end

end ZeroProxy.Worker.Fetch
