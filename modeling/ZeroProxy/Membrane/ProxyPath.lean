import ZeroProxy.Worker.Refresh

/-!
# Addresses of proxied subresources

The transformer and the page's prelude each build the address under which the worker fetches a
subresource. Both put the URL without its fragment into the query, with the tab after it, and
the fragment last, outside the query.
-/

namespace ZeroProxy.Membrane

open Bool Htmltx List Option Text Url Worker

/-! ## The page's address -/

/-- `c.charCodeAt(0).toString(16).toUpperCase()`. -/
def upperHex (c : Char) : Text := (Nat.toDigits 16 c.toNat).map Char.toUpper

/-- The punctuation that `encodeURIComponent` keeps and `encodeURLParam` does not. -/
def isEscapedMark (c : Char) : Bool := "!'()*".toList.contains c

def encodeURLParam (s : Text) : Text :=
  (encodeURIComponent s).flatMap fun c => if isEscapedMark c then '%' :: upperHex c else [c]

/-- `ZP.controlPath`. -/
def controlPath (path : Text) : Text := controlRoute ++ path.dropWhile (· == '/')

/-- `ZP.apiPath`. -/
def apiPath (name : Text) : Text := controlPath ("api/" ++ name.dropWhile (· == '/'))

/-- `/^https?:/i`. -/
def isHttp (s : Text) : Bool := startsWithCI s "http:" || startsWithCI s "https:"

/-- `subresourceProxyPath`, in a page of the proxy at `proxyOrigin`; `tabId` is that of its boot
    record, if it has one. -/
def subresourceProxyPath (proxyOrigin : Text) (tabId : Option Text) (s : Text) : Text :=
  if s.isEmpty || s.head? == some '#' then s
  else if !isHttp s then s
  else
    let hash := findChar (· == '#') s
    let head := match hash with
      | none => s
      | some i => s.take i
    let frag := match hash with
      | none => []
      | some i => s.drop i
    let out := proxyOrigin ++ apiPath "v2/fetch" ++ "?url=" ++ encodeURLParam head
    -- An empty tab id is as none: `if (boot && boot.tabId)`.
    let out := match tabId.filter (!·.isEmpty) with
      | none => out
      | some tab => out ++ "&tab=" ++ encodeURLParam tab
    out ++ frag

/-! ## What the worker reads -/

/-- `url.searchParams.get(name)`, where `url` is at `address`. -/
def searchParam (name address : Text) : Option Text :=
  get name (searchParams ((parts address).query.getD []))

/-- The worker's `target`. -/
def workerUrl (address : Text) : Option Text := searchParam "url" address

/-- The tab that the worker reads in an address. -/
def workerTab (address : Text) : Option Text := searchParam "tab" address

/-! ## The two encoders -/

theorem flatMap_encodeByte (b : UInt8) : ((encodeByte componentKeep b).flatMap fun c =>
      if isEscapedMark c then '%' :: upperHex c else [c]) = encodeByte urlParamKeep b := by
  have hall : ∀ n : Fin 256, ((encodeByte componentKeep (UInt8.ofNat n)).flatMap fun c =>
      if isEscapedMark c then '%' :: upperHex c else [c]) =
        encodeByte urlParamKeep (UInt8.ofNat n) := by
    decide +kernel
  have hb := hall ⟨b.toNat, b.toNat_lt⟩
  rwa [UInt8.ofNat_toNat] at hb

theorem encodeURLParam_eq (s : Text) : encodeURLParam s = percentEncode urlParamKeep s := by
  rw [encodeURLParam, encodeURIComponent, percentEncode_eq, percentEncode_eq, flatMap_assoc]
  exact flatMap_congr fun b _ => flatMap_encodeByte b

/-- A character that stands for itself in a query, and neither separates two parameters nor
    begins a query. -/
def isParamUnit (c : Char) : Bool := isQueryUnit c && c != '&' && c != '?'

theorem isParamUnit_of_mem {s : Text} {c : Char} (h : c ∈ percentEncode urlParamKeep s) :
    isParamUnit c := by
  have hall : ∀ n : Fin 128, (urlParamKeep (Char.ofNat n) ∨ Char.ofNat n = '%' ∨
      isAsciiAlnum (Char.ofNat n)) → isParamUnit (Char.ofNat n) := by
    decide +kernel
  obtain ⟨hlt, hc⟩ := mem_percentEncode h
  have hn := hall ⟨c.toNat, hlt⟩
  simp only [Char.ofNat_toNat] at hn
  exact hn hc

/-! ## The two addresses -/

/-- The proxy's origin, as the transformer and the page are told it: nothing of a URL after the
    host and the port. -/
structure Origin where
  /-- The origin. -/
  text : Text
  /-- It has no control and no space. -/
  visible : ∀ c ∈ text, isC0OrSpace c = false
  /-- It has no query. -/
  no_query : '?' ∉ text
  /-- It has no fragment. -/
  no_fragment : '#' ∉ text
  /-- It does not end in a slash. -/
  no_slash : text.getLast? ≠ some '/'

/-- A URL of the web. -/
structure HttpUrl where
  /-- The URL. -/
  text : Text
  /-- Its scheme is `http` or `https`. -/
  http : isHttp text

theorem HttpUrl.ne_nil (url : HttpUrl) : url.text.isEmpty = false := by
  have h := url.http
  cases htext : url.text with
  | nil => rw [htext] at h; cases h
  | cons c t => rfl

theorem HttpUrl.head?_ne (url : HttpUrl) : (url.text.head? == some '#') = false := by
  have h := url.http
  rw [isHttp, or_eq_true] at h
  rw [beq_eq_false_iff_ne]
  intro hhead
  obtain ⟨t, ht⟩ := head?_eq_some_iff.1 hhead
  rw [ht] at h
  rcases h with h | h
  · cases (and_eq_true_iff.1 h).1
  · cases (and_eq_true_iff.1 h).1

theorem apiPath_fetch : apiPath "v2/fetch" = "/zp/api/v2/fetch" := by decide

variable (origin : Origin)

theorem Origin.controlBase :
    controlBase origin.text controlRoute = origin.text ++ controlRoute := by
  have htrim : trimEndMatches '/' origin.text = origin.text := by
    rw [trimEndMatches, rdropWhile_eq_self_iff]
    intro hne h
    rw [beq_iff_eq] at h
    exact origin.no_slash (by rw [getLast?_eq_some_getLast hne, h])
  have hlast : (origin.text ++ controlRoute).getLast? = some '/' := by
    rw [getLast?_append]; rfl
  rw [Htmltx.controlBase, htrim]
  simp [hlast]

/-- A parameter with the value `s`. -/
def paramText (name s : Text) : Text := name ++ '=' :: percentEncode urlParamKeep s

/-- The query of an address. -/
def queryText (tabId : Option Text) (head : Text) : Text := paramText "url" head ++
    match tabId.filter (!·.isEmpty) with
    | some tab => '&' :: paramText "tab" tab
    | none => []

theorem subresourceProxyUrl_eq (tabId : Option Text) (url : Text) :
    subresourceProxyUrl url origin.text controlRoute tabId =
      (origin.text ++ apiPath "v2/fetch" ++ '?' :: queryText tabId (splitFragment url).1) ++
        (splitFragment url).2 := by
  rw [apiPath_fetch]
  simp only [subresourceProxyUrl, origin.controlBase, queryText, paramText]
  cases tabId.filter (!·.isEmpty) <;> simp [controlRoute]

theorem splitFragment_eq (s : Text) : splitFragment s = ((match findChar (· == '#') s with
      | none => s
      | some i => s.take i), match findChar (· == '#') s with
      | none => []
      | some i => s.drop i) := by
  induction s with
  | nil => rfl
  | cons c s ih =>
    by_cases hc : c = '#'
    · subst hc
      rfl
    have hne : (c == '#') = false := beq_eq_false_iff_ne.2 hc
    rw [splitFragment, Prod.mk.injEq] at ih
    have hne' : (c != '#') := bne_iff_ne.2 hc
    rw [splitFragment, takeWhile_cons, dropWhile_cons, if_pos hne', if_pos hne', ih.1, ih.2]
    simp only [findChar, findIdx?_cons, hne]
    cases findIdx? (· == '#') s <;> rfl

theorem subresourceProxyPath_eq (tabId : Option Text) (url : HttpUrl) :
    subresourceProxyPath origin.text tabId url.text =
      subresourceProxyUrl url.text origin.text controlRoute tabId := by
  rw [subresourceProxyUrl_eq, splitFragment_eq, subresourceProxyPath, url.ne_nil, url.head?_ne,
    url.http]
  simp only [encodeURLParam_eq, queryText, paramText]
  cases tabId.filter (!·.isEmpty) <;> simp

/-! ## Reading an address -/

theorem splitFragment_fst_notMem (s : Text) : '#' ∉ (splitFragment s).1 := fun h => by
  have := mem_takeWhile_imp h
  cases this

theorem splitFragment_snd (s : Text) :
    (splitFragment s).2 = [] ∨ ∃ t, (splitFragment s).2 = '#' :: t := by
  cases h : (splitFragment s).2 with
  | nil => exact .inl rfl
  | cons c t =>
    have hc : (c != '#') = false := head?_dropWhile_eq_false (p := (· != '#')) (congrArg head? h)
    rw [bne_eq_false_iff_eq] at hc
    exact .inr ⟨t, by rw [hc]⟩

theorem splitFragment_append (s : Text) : (splitFragment s).1 ++ (splitFragment s).2 = s :=
  takeWhile_append_dropWhile

theorem splitFragment_of_append {s t : Text} (hs : '#' ∉ s) (ht : t = [] ∨ ∃ u, t = '#' :: u) :
    splitFragment (s ++ t) = (s, t) := by
  have hall : ∀ d ∈ s, (d != '#') := fun d hd => by
    rw [bne, beq_eq_false_of_notMem hs d hd, Bool.not_false]
  rw [splitFragment, takeWhile_append_of_pos hall, dropWhile_append_of_pos hall]
  rcases ht with rfl | ⟨u, rfl⟩ <;> simp

theorem isParamUnit_of_mem_paramText {name s : Text} (hname : name.all isParamUnit) {c : Char}
    (h : c ∈ paramText name s) : isParamUnit c := by
  rw [paramText, mem_append, mem_cons] at h
  rcases h with h | rfl | h
  · exact all_eq_true.1 hname c h
  · decide
  · exact isParamUnit_of_mem h

theorem notMem_of_isParamUnit {s : Text} (hs : ∀ c ∈ s, isParamUnit c) {d : Char}
    (hd : isParamUnit d = false) : d ∉ s := fun h => by
  rw [hs d h] at hd
  cases hd

theorem param_paramText {name : Text} (hname : '=' ∉ name) (hplain : formDecode name = name)
    (s : Text) : param (paramText name s) = (name, s) := by
  have hdecode := @formDecode_percentEncode urlParamKeep (by decide) (by decide) s
  rw [param, paramText, cut_append_cons hname]
  simp [hplain, hdecode]

theorem paramText_isEmpty (name s : Text) : (paramText name s).isEmpty = false := by
  cases name <;> rfl

theorem searchParams_queryText (tabId : Option Text) (head : Text) :
    searchParams (queryText tabId head) = ("url".toList, head) ::
      ((tabId.filter (!·.isEmpty)).map (Prod.mk "tab".toList)).toList := by
  have hurl := @param_paramText "url" (by decide) (by decide) head
  have hnot {name : Text} (hname : name.all isParamUnit) (s : Text) : '&' ∉ paramText name s :=
    notMem_of_isParamUnit (fun _ => isParamUnit_of_mem_paramText hname) rfl
  rw [queryText, searchParams]
  cases tabId.filter (!·.isEmpty) with
  | none =>
    rw [append_nil, split_of_notMem (hnot (by decide) head)]
    simp only [filter_cons, paramText_isEmpty, Bool.not_false, if_true, filter_nil,
      map_cons, map_nil, hurl, map_none, toList_none]
  | some tab =>
    have htab := @param_paramText "tab" (by decide) (by decide) tab
    rw [split_append_cons (hnot (by decide) head), split_of_notMem (hnot (by decide) tab)]
    simp only [filter_cons, paramText_isEmpty, Bool.not_false, if_true, filter_nil,
      map_cons, map_nil, hurl, htab, map_some, toList_some]

theorem isQueryUnit_of_mem_queryText {tabId : Option Text} {head : Text} {c : Char}
    (h : c ∈ queryText tabId head) : isQueryUnit c := by
  have hunit {d : Char} (hd : isParamUnit d) : isQueryUnit d := by
    rw [isParamUnit, and_eq_true, and_eq_true] at hd
    exact hd.1.1
  rw [queryText, mem_append] at h
  rcases h with h | h
  · exact hunit (isParamUnit_of_mem_paramText (by decide) h)
  cases htab : tabId.filter (!·.isEmpty) with
  | none => rw [htab] at h; cases h
  | some tab =>
    rw [htab, mem_cons] at h
    rcases h with rfl | h
    · decide
    · exact hunit (isParamUnit_of_mem_paramText (by decide) h)

theorem visible_of_isQueryUnit {c : Char} (h : isQueryUnit c) :
    isC0OrSpace c = false ∧ c.toNat < 128 ∧ c ≠ '#' := by
  rw [isQueryUnit, and_eq_true, and_eq_true, decide_eq_true_eq, decide_eq_true_eq] at h
  refine ⟨decide_eq_false (by omega), by omega, ?_⟩
  rintro rfl
  exact absurd h.2 (by decide)

/-- The route that resources are fetched by. -/
def Origin.route (origin : Origin) : Text := origin.text ++ apiPath "v2/fetch"

theorem Origin.notMem_route {c : Char} (hc : c ∉ origin.text)
    (hroute : c ∉ "/zp/api/v2/fetch".toList) : c ∉ origin.route := by
  rw [Origin.route, apiPath_fetch]
  exact fun h => (mem_append.1 h).elim hc hroute

theorem Origin.visible_route : ∀ c ∈ origin.route, isC0OrSpace c = false := by
  have hpath : ∀ c ∈ "/zp/api/v2/fetch".toList, isC0OrSpace c = false := by
    have hall : "/zp/api/v2/fetch".toList.all (fun c => !isC0OrSpace c) := by decide
    simpa only [List.all_eq_true, not_eq_true'] using hall
  rw [Origin.route, apiPath_fetch]
  exact fun c h => (mem_append.1 h).elim (origin.visible c) (hpath c)

/-- An address up to the fragment. -/
def Origin.resource (origin : Origin) (tabId : Option Text) (head : Text) : Text :=
  origin.route ++ '?' :: queryText tabId head

theorem Origin.visible_resource (tabId : Option Text) (head : Text) :
    ∀ c ∈ origin.resource tabId head, isC0OrSpace c = false := by
  intro c h
  rw [Origin.resource, mem_append, mem_cons] at h
  rcases h with h | rfl | h
  · exact origin.visible_route c h
  · rfl
  · exact (visible_of_isQueryUnit (isQueryUnit_of_mem_queryText h)).1

theorem Origin.hash_notMem_resource (tabId : Option Text) (head : Text) :
    '#' ∉ origin.resource tabId head := by
  rw [Origin.resource, mem_append, mem_cons]
  rintro (h | h | h)
  · exact origin.notMem_route origin.no_fragment (by decide) h
  · cases h
  · exact (visible_of_isQueryUnit (isQueryUnit_of_mem_queryText h)).2.2 rfl

theorem Origin.cut_resource (tabId : Option Text) (head : Text) :
    cut '?' (origin.resource tabId head) = (origin.route, some (queryText tabId head)) :=
  cut_append_cons (origin.notMem_route origin.no_query (by decide)) _

theorem percentEncode_queryText (tabId : Option Text) (head : Text) :
    percentEncode isQueryUnit (queryText tabId head) = queryText tabId head := by
  refine percentEncode_eq_self fun c h => ?_
  have hc := isQueryUnit_of_mem_queryText h
  exact ⟨(visible_of_isQueryUnit hc).2.1, hc⟩

theorem parts_resource (tabId : Option Text) (url : Text) :
    parts (origin.resource tabId (splitFragment url).1 ++ (splitFragment url).2) =
      ⟨origin.route, some (queryText tabId (splitFragment url).1), (parts url).fragment⟩ := by
  have hnot := splitFragment_fst_notMem url
  have hhash := origin.hash_notMem_resource tabId (splitFragment url).1
  obtain ⟨haddress, hquery⟩ := parts_append (origin.visible_resource tabId (splitFragment url).1)
    hhash (splitFragment_snd url)
  rw [origin.cut_resource] at haddress hquery
  rw [map_some, percentEncode_queryText] at hquery
  refine Parts.ext haddress hquery ?_
  -- The fragment of the address and of the URL is the same text after a `#`, if there is one.
  conv_rhs => rw [← splitFragment_append url]
  rcases splitFragment_snd url with hnil | ⟨t, ht⟩
  · rw [hnil, append_nil, append_nil, fragment_of_notMem hhash, fragment_of_notMem hnot]
  · rw [ht, fragment_append_cons hhash, fragment_append_cons hnot]

/-- The page and the transformer build one address of an http(s) URL, and the worker reads in it
    the URL without its fragment, the tab, if any, and the fragment. -/
theorem subresourceProxyPath_read (origin : Origin) (tabId : Option Text) (url : HttpUrl) :
    ∃ address head fragment,
      subresourceProxyUrl url.text origin.text controlRoute tabId = address ∧
      subresourceProxyPath origin.text tabId url.text = address ∧
      url.text = head ++ fragment ∧ splitFragment url.text = (head, fragment) ∧
      (parts address).address = origin.text ++ apiPath "v2/fetch" ∧
      workerUrl address = some head ∧ workerTab address = tabId.filter (!·.isEmpty) ∧
      (splitFragment address).2 = fragment ∧
      (parts address).fragment = (parts url.text).fragment := by
  have haddress : subresourceProxyUrl url.text origin.text controlRoute tabId =
      origin.resource tabId (splitFragment url.text).1 ++ (splitFragment url.text).2 :=
    subresourceProxyUrl_eq origin tabId url.text
  have hparts := parts_resource origin tabId url.text
  refine ⟨_, (splitFragment url.text).1, (splitFragment url.text).2, haddress, ?_,
    (splitFragment_append url.text).symm, rfl, ?_, ?_, ?_, ?_, ?_⟩
  · rw [subresourceProxyPath_eq, haddress]
  · rw [hparts, Origin.route]
  · rw [workerUrl, searchParam, hparts, getD_some, searchParams_queryText]
    rfl
  · rw [workerTab, searchParam, hparts, getD_some, searchParams_queryText]
    cases tabId.filter (!·.isEmpty) <;> rfl
  · rw [splitFragment_of_append (origin.hash_notMem_resource tabId _) (splitFragment_snd url.text)]
  · rw [hparts]

theorem visible_of_all {t : Text} (h : t.all fun c => !isC0OrSpace c) :
    ∀ c ∈ t, isC0OrSpace c = false := by
  simpa using h

/-- An origin of the proxy. -/
def proxyHome : Origin :=
  ⟨"https://p.test", visible_of_all rfl, by decide, by decide, by decide⟩

/-- The address of an image with a query and a fragment. -/
def shopImage : HttpUrl := ⟨"https://a.test/i?n=1&m#top", by decide⟩

/-- The worker reads the address of the image without its fragment, and the tab. -/
theorem subresourceProxyPath_read_image : ∃ address, subresourceProxyPath "https://p.test"
      (some "t 1".toList) "https://a.test/i?n=1&m#top" = address ∧
      workerUrl address = some "https://a.test/i?n=1&m".toList ∧
      workerTab address = some "t 1".toList ∧
      (splitFragment address).2 = "#top" := by
  obtain ⟨address, head, fragment, -, hpath, -, hsplit, -, hurl, htab, hfragment, -⟩ :=
    subresourceProxyPath_read proxyHome (some "t 1".toList) shopImage
  have hparts : splitFragment shopImage.text =
      ("https://a.test/i?n=1&m".toList, "#top".toList) := by decide
  obtain ⟨rfl, rfl⟩ := Prod.mk.inj (hparts.symm.trans hsplit)
  exact ⟨address, hpath, hurl, htab, hfragment⟩

end ZeroProxy.Membrane
