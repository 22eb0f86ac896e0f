import ZeroProxy.Http.Headers
import ZeroProxy.Store.Keyed

/-!
# The headers of a request in the kernel

What `kernel_fetch` (`kernel/mod.rs`) makes of the list of headers that the worker hands over:
headers for the server, and headers with names in `x-zp-` for the kernel itself. Unlike a `Headers`
object the headers of a message have an order that is seen; the kernel sends them in one that the
worker names in a header of its own (`header_order.rs`).
-/

namespace ZeroProxy.Http

open List StableSort Text

abbrev Field := Text × Text

/-- The values of a name, given in lower case. -/
def fieldValues (name : Text) (l : List Field) : List Text :=
  (l.filter fun e => lower e.1 == name).map (·.2)

variable {name : Text} {l l' : List Field}

@[simp] theorem fieldValues_nil : fieldValues name [] = [] := rfl

@[simp] theorem fieldValues_append :
    fieldValues name (l ++ l') = fieldValues name l ++ fieldValues name l' := by
  rw [fieldValues, filter_append, map_append]
  rfl

theorem fieldValues_cons (e : Field) : fieldValues name (e :: l) =
    if lower e.1 = name then e.2 :: fieldValues name l else fieldValues name l := by
  by_cases h : lower e.1 = name <;> simp [fieldValues, h]

theorem fieldValues_singleton {k : Text} (v : Text) (h : lower k = name) :
    fieldValues name [(k, v)] = [v] := by
  rw [fieldValues_cons]
  exact if_pos h

theorem fieldValues_eq_nil_iff : fieldValues name l = [] ↔ ∀ e ∈ l, lower e.1 ≠ name := by
  rw [fieldValues, map_eq_nil_iff, filter_eq_nil_iff]
  simp only [beq_iff_eq]

theorem fieldValues_ne_nil {e : Field} (h : e ∈ l) : fieldValues (lower e.1) l ≠ [] :=
  fun hnil => fieldValues_eq_nil_iff.1 hnil e h rfl

theorem fieldValues_filter (p : Text → Bool) : fieldValues name (l.filter fun e => p (lower e.1)) =
      if p name then fieldValues name l else [] := by
  rw [fieldValues, filter_filter]
  split_ifs with hp
  · refine congrArg (map _) (filter_congr fun e _ => ?_)
    cases he : lower e.1 == name with
    | false => rfl
    | true => rw [beq_iff_eq.1 he, hp]; rfl
  · rw [map_eq_nil_iff, filter_eq_nil_iff]
    rintro e _ he
    rw [Bool.and_eq_true, beq_iff_eq] at he
    exact hp (he.1 ▸ he.2)

theorem fieldValues_sortByKey (rank : Text → Nat) :
    fieldValues name (sortByKey (fun e : Field => rank (lower e.1)) l) = fieldValues name l := by
  rw [fieldValues, filter_sortByKey]
  · rfl
  · intro a _ b _ ha hb
    rw [beq_iff_eq.1 ha, beq_iff_eq.1 hb]

/-- The names are tokens in lower case, as they are in a `Headers` object. -/
def Plain (l : List Field) : Prop := ∀ e ∈ l, isToken e.1 ∧ lower e.1 = e.1

theorem Plain.append (h : Plain l) (h' : Plain l') : Plain (l ++ l') := fun e he =>
  (mem_append.1 he).elim (h e) (h' e)

theorem Plain.sublist (h : Plain l') (hl : l.Sublist l') : Plain l := fun e he => h e (hl.subset he)

theorem Plain.jsLower_eq (h : Plain l) {e : Field} (he : e ∈ l) : jsLower e.1 = e.1 :=
  (jsLower_of_isToken (h e he).1).trans (h e he).2

/-! ## Changes of a `Headers` object -/

namespace Headers

/-- A name is set to a value, or deleted. -/
def edit (h : Headers) (e : Text × Option Text) : Headers :=
  match e.2 with
  | none => h.delete e.1
  | some v => h.set e.1 v

variable {h : Headers} {other : Text}

theorem values_edit_self (e : Text × Option Text) (he : lower e.1 = lower other) :
    (h.edit e).values other = (e.2.map normalize).toList := by
  rw [values, ← he, ← values, edit]
  cases e.2 with
  | none => exact values_delete_self
  | some v => exact values_set_self

theorem values_edit_of_ne (e : Text × Option Text) (he : lower e.1 ≠ lower other) :
    (h.edit e).values other = h.values other := by
  rw [edit]
  cases e.2 with
  | none => exact values_delete_of_ne he.symm
  | some v => exact values_set_of_ne he.symm

theorem values_edits (edits : List (Text × Option Text)) : (edits.foldl edit h).values other =
      match (edits.filter fun e => lower e.1 == lower other).getLast? with
      | none => h.values other
      | some e => (e.2.map normalize).toList := by
  induction edits using reverseRecOn with
  | nil => rfl
  | append_singleton edits e ih =>
    rw [foldl_append, foldl_cons, foldl_nil, filter_append]
    by_cases he : lower e.1 = lower other
    · rw [values_edit_self e he, filter_cons, if_pos (beq_iff_eq.2 he), filter_nil, getLast?_concat]
    · rw [values_edit_of_ne e he, filter_cons, if_neg fun hb => he (beq_iff_eq.1 hb),
        filter_nil, append_nil, ih]

theorem plain_edit (hp : Plain h.list) {e : Text × Option Text} (he : isToken (lower e.1))
    (hlower : lower (lower e.1) = lower e.1) : Plain (h.edit e).list := by
  rw [edit]
  cases e.2 with
  | none => exact hp.sublist filter_sublist
  | some v =>
    refine (hp.sublist filter_sublist).append fun e' he' => ?_
    rw [mem_singleton.1 he']
    exact ⟨he, hlower⟩

theorem plain_edits (hp : Plain h.list) {edits : List (Text × Option Text)}
    (hnames : ∀ e ∈ edits, isToken (lower e.1) ∧ lower (lower e.1) = lower e.1) :
    Plain (edits.foldl edit h).list := by
  induction edits generalizing h with
  | nil => exact hp
  | cons e edits ih =>
    obtain ⟨he, hlower⟩ := hnames e (.head _)
    exact ih (plain_edit hp he hlower) fun e' he' => hnames e' (.tail _ he')

theorem values_edits_of_ne {edits : List (Text × Option Text)}
    (hne : ∀ e ∈ edits, lower e.1 ≠ lower other) :
    (edits.foldl edit h).values other = h.values other := by
  have hnil : edits.filter (fun e => lower e.1 == lower other) = [] :=
    filter_eq_nil_iff.2 fun e he hb => hne e he (beq_iff_eq.1 hb)
  rw [values_edits, hnil]
  rfl

end Headers

end ZeroProxy.Http

namespace ZeroProxy.Codec

open Http StableSort Text

/-- The place of a name in the worker's list. A name that is not there goes last. -/
def orderRank (order : List Text) (name : Text) : Nat := order.idxOf (lower name)

def navigationRanks : List (Text × Nat) :=
  [("sec-ch-ua", 0), ("sec-ch-ua-mobile", 1), ("sec-ch-ua-platform", 2),
    ("upgrade-insecure-requests", 3), ("user-agent", 4), ("accept", 5), ("origin", 6),
    ("sec-fetch-site", 7), ("sec-fetch-mode", 8), ("sec-fetch-user", 9), ("sec-fetch-dest", 10),
    ("sec-fetch-storage-access", 11), ("referer", 12), ("accept-encoding", 13),
    ("accept-language", 14), ("priority", 15), ("cookie", 900)]

def navigationRank (name : Text) : Nat := (navigationRanks.lookup (lower name)).getD 800

def orderRequestHeaders (headers : List Field) (swOrder : Option (List Text)) : List Field :=
  match swOrder with
  | some order => sortByKey (fun e => orderRank order e.1) headers
  | none => sortByKey (fun e => navigationRank e.1) headers

def parseHeaderOrder (value : Text) : List Text :=
  ((split (· == ',') value).map fun s => lower (rustTrim s)).filter (!·.isEmpty)

/-- The second list has the headers of the first one in the order of some names: headers whose
    names are listed in the order of the list, the others after them, and headers that the list
    does not tell apart as they were. -/
structure Follows (order : List Text) (before after : List Field) : Prop where
  perm : after.Perm before
  listed : after.Pairwise fun a b => orderRank order a.1 ≤ orderRank order b.1
  stable : ∀ rank, after.filter (fun e => orderRank order e.1 == rank) =
    before.filter fun e => orderRank order e.1 == rank

theorem follows_orderRequestHeaders (headers : List Field) (order : List Text) :
    Follows order headers (orderRequestHeaders headers (some order)) where
  perm := perm_sortByKey _ headers
  listed := pairwise_sortByKey _ headers
  stable rank := by
    refine filter_sortByKey fun a _ b _ ha hb => ?_
    exact (beq_iff_eq.1 ha).trans (beq_iff_eq.1 hb).symm

theorem fieldValues_orderRequestHeaders (name : Text) (headers : List Field)
    (swOrder : Option (List Text)) :
    fieldValues name (orderRequestHeaders headers swOrder) = fieldValues name headers := by
  cases swOrder with
  | none => exact fieldValues_sortByKey fun n => (navigationRanks.lookup n).getD 800
  | some order => exact fieldValues_sortByKey fun n => order.idxOf n

theorem mem_orderRequestHeaders {e : Field} {headers : List Field}
    {swOrder : Option (List Text)} : e ∈ orderRequestHeaders headers swOrder ↔ e ∈ headers := by
  cases swOrder <;> exact mem_sortByKey

theorem parseHeaderOrder_intercalate {order : List Text}
    (h : ∀ n ∈ order, isToken n ∧ lower n = n) :
    parseHeaderOrder (",".toList.intercalate order) = order := by
  by_cases hne : order = []
  · subst hne
    decide
  have hmap : order.map (fun s => lower (rustTrim s)) = order := by
    refine (List.map_congr_left fun n hn => ?_).trans (List.map_id _)
    rw [rustTrim_of_isToken (h n hn).1]
    exact (h n hn).2
  rw [parseHeaderOrder, split_intercalate (fun n hn => (h n hn).1) hne, hmap, List.filter_eq_self]
  intro n hn
  rw [Bool.not_eq_true', List.isEmpty_eq_false_iff]
  exact (chars_of_isToken (h n hn).1).1

end ZeroProxy.Codec

namespace ZeroProxy.Kernel

open Codec Http List Text

/-- The headers that are kept, and what was read from the others. -/
structure Sidechannel where
  kept : List Field
  referer : Option Text
  origin : Option Text
  userAgent : Option Text
  cookie : Option Text
  armedChallengeCompat : Bool
  swOrder : Option (List Text)
  isolationKey : Option Text

def framingNames : List Text := ["host", "origin", "referer", "accept-encoding",
    "connection", "content-length", "transfer-encoding"]

def isInternal (name : Text) : Bool := "x-zp-".toList.isPrefixOf name

namespace Sidechannel

def empty : Sidechannel := ⟨[], none, none, none, none, false, none, none⟩

variable (s : Sidechannel)

/-- One header, in `retain`. -/
def note (e : Field) : Sidechannel :=
  let kl := lower e.1
  if kl = "x-zp-header-order" then { s with swOrder := some (parseHeaderOrder e.2) }
  else if kl = "x-zp-referer" then { s with referer := some e.2 }
  else if kl = "x-zp-origin" then { s with origin := some e.2 }
  else if kl = "x-zp-user-agent" then { s with userAgent := some e.2 }
  else if kl = "x-zp-arm-challenge-compat" then
    if rustTrim e.2 = "1" then { s with armedChallengeCompat := true } else s
  else if kl = "x-zp-stream-isolation-key" then
    if (rustTrim e.2).isEmpty then s else { s with isolationKey := some (rustTrim e.2) }
  else if isInternal kl then s
  else if kl = "cookie" then { s with cookie := some e.2 }
  else if framingNames.contains kl then s
  else { s with kept := s.kept ++ [e] }

/-- The headers that the kernel adds. -/
def promotions : List Field :=
  (s.referer.map fun v => ("Referer".toList, v)).toList ++
    (s.origin.map fun v => ("Origin".toList, v)).toList ++
    (s.userAgent.map fun v => ("User-Agent".toList, v)).toList ++
    [("Accept-Encoding".toList, "gzip, deflate, br, zstd".toList)] ++
    (s.cookie.map fun v => ("Cookie".toList, v)).toList

end Sidechannel

open Sidechannel

/-- What the kernel reads from a list of headers. A pair without a name is none. -/
def sidechannel (entries : List Field) : Sidechannel :=
  (entries.filter fun e => !e.1.isEmpty).foldl note .empty

/-- The headers before they are ordered. -/
def unordered (entries : List Field) : List Field :=
  (sidechannel entries).kept ++ (sidechannel entries).promotions

/-- The headers that `kernel_fetch` sends. -/
def requestHeaders (entries : List Field) : List Field :=
  orderRequestHeaders (unordered entries) (sidechannel entries).swOrder

/-! ## What is kept -/

/-- The header of a name is kept. -/
def passes (name : Text) : Bool :=
  !isInternal name && name != "cookie" && !framingNames.contains name

namespace Sidechannel

variable {s : Sidechannel}

theorem kept_note (e : Field) :
    (s.note e).kept = s.kept ++ if passes (lower e.1) then [e] else [] := by
  have hdrop (h : passes (lower e.1) = false) :
      s.kept = s.kept ++ if passes (lower e.1) then [e] else [] := by
    rw [h, if_neg Bool.false_ne_true, append_nil]
  by_cases hint : isInternal (lower e.1)
  · -- Whatever is read from it, the header goes.
    have hkept : (s.note e).kept = s.kept := by
      simp only [note, apply_ite kept, if_pos hint, ite_self]
    rw [hkept]
    refine hdrop ?_
    rw [passes, hint]
    rfl
  have hne {c : Text} (hc : isInternal c) : lower e.1 ≠ c := fun h => hint (h ▸ hc)
  rw [note, if_neg (hne rfl), if_neg (hne rfl), if_neg (hne rfl), if_neg (hne rfl),
    if_neg (hne rfl), if_neg (hne rfl), if_neg hint]
  by_cases hcookie : lower e.1 = "cookie"
  · rw [if_pos hcookie]
    exact hdrop (hcookie ▸ rfl)
  rw [if_neg hcookie]
  by_cases hframing : framingNames.contains (lower e.1)
  · rw [if_pos hframing]
    refine hdrop ?_
    rw [passes, hframing, Bool.not_true, Bool.and_false]
  · have hpass : passes (lower e.1) := by
      rw [passes, Bool.and_eq_true, Bool.and_eq_true, Bool.not_eq_true', Bool.not_eq_true']
      exact ⟨⟨Bool.eq_false_iff.2 hint, bne_iff_ne.2 hcookie⟩, Bool.eq_false_iff.2 hframing⟩
    rw [if_neg hframing, if_pos hpass]

theorem kept_foldl_note (l : List Field) :
    (l.foldl note s).kept = s.kept ++ l.filter fun e => passes (lower e.1) := by
  induction l generalizing s with
  | nil => exact (append_nil _).symm
  | cons e l ih =>
    rw [foldl_cons, ih, kept_note, append_assoc, filter_cons]
    split_ifs <;> rfl

/-! ## What is read -/

theorem foldl_note {β : Type*} {read : Sidechannel → Option β} {name : Text} {f : Text → β}
    (hnote : ∀ s e, read (note s e) = if lower e.1 = name then some (f e.2) else read s)
    (l : List Field) :
    read (l.foldl note s) = ((fieldValues name l).getLast?.map f).or (read s) := by
  induction l generalizing s with
  | nil => rfl
  | cons e l ih =>
    rw [foldl_cons, ih, hnote, fieldValues_cons]
    split_ifs
    · cases hl : fieldValues name l with
      | nil => rfl
      | cons v vs => rw [getLast?_cons_cons]; rfl
    · rfl

/-- Each field of the record is set by the header of one name. -/
theorem fields_note (s : Sidechannel) (e : Field) :
    (s.note e).referer = (if lower e.1 = "x-zp-referer" then some (id e.2) else s.referer) ∧
    (s.note e).origin = (if lower e.1 = "x-zp-origin" then some (id e.2) else s.origin) ∧
    (s.note e).userAgent = (if lower e.1 = "x-zp-user-agent" then some (id e.2) else s.userAgent) ∧
    (s.note e).cookie = (if lower e.1 = "cookie" then some (id e.2) else s.cookie) ∧
    (s.note e).swOrder = if lower e.1 = "x-zp-header-order"
      then some (parseHeaderOrder e.2) else s.swOrder := by
  refine ⟨?_, ?_, ?_, ?_, ?_⟩
  all_goals
    split_ifs with h
    · rw [note, h]
      rfl
    · simp only [note, apply_ite referer, apply_ite origin, apply_ite userAgent,
        apply_ite cookie, apply_ite swOrder, if_neg h, ite_self]

end Sidechannel

/-! ## What is sent -/

section

variable {entries : List Field} {name : Text}

theorem fieldValues_named (hname : name ≠ []) :
    fieldValues name (entries.filter fun e => !e.1.isEmpty) = fieldValues name entries := by
  have hlower : (fun e : Field => !e.1.isEmpty) = fun e => !(lower e.1).isEmpty := by
    funext e
    rw [lower, isEmpty_map]
  rw [hlower, fieldValues_filter fun n => !n.isEmpty, if_pos]
  rw [Bool.not_eq_true', isEmpty_eq_false_iff]
  exact hname

theorem read_sidechannel {β : Type*} {read : Sidechannel → Option β} {f : Text → β}
    (hnote : ∀ s e, read (note s e) = if lower e.1 = name then some (f e.2) else read s)
    (hempty : read .empty = none) (hname : name ≠ []) :
    read (sidechannel entries) = (fieldValues name entries).getLast?.map f := by
  rw [sidechannel, foldl_note hnote, hempty, Option.or_none, fieldValues_named hname]

theorem referer_sidechannel : (sidechannel entries).referer =
    (fieldValues "x-zp-referer" entries).getLast? := by
  rw [read_sidechannel (fun s e => (fields_note s e).1) rfl (by decide), Option.map_id, id]

theorem origin_sidechannel : (sidechannel entries).origin =
    (fieldValues "x-zp-origin" entries).getLast? := by
  rw [read_sidechannel (fun s e => (fields_note s e).2.1) rfl (by decide), Option.map_id, id]

theorem userAgent_sidechannel : (sidechannel entries).userAgent =
    (fieldValues "x-zp-user-agent" entries).getLast? := by
  rw [read_sidechannel (fun s e => (fields_note s e).2.2.1) rfl (by decide), Option.map_id, id]

theorem cookie_sidechannel : (sidechannel entries).cookie =
    (fieldValues "cookie" entries).getLast? := by
  rw [read_sidechannel (fun s e => (fields_note s e).2.2.2.1) rfl (by decide), Option.map_id, id]

theorem swOrder_sidechannel : (sidechannel entries).swOrder =
    (fieldValues "x-zp-header-order" entries).getLast?.map parseHeaderOrder :=
  read_sidechannel (fun s e => (fields_note s e).2.2.2.2) rfl (by decide)

theorem fieldValues_optional {k : Text} {v : Option Text} :
    fieldValues name (v.map fun v => (k, v)).toList = if lower k = name then v.toList else [] := by
  cases v with
  | none => exact (ite_self _).symm
  | some v => exact fieldValues_cons (k, v)

def promotedNames : List Text := ["referer", "origin", "user-agent", "accept-encoding", "cookie"]

theorem fieldValues_promotions (s : Sidechannel) : fieldValues name s.promotions =
    (if "referer" = name then s.referer.toList else []) ++
      (if "origin" = name then s.origin.toList else []) ++
      (if "user-agent".toList = name then s.userAgent.toList else []) ++
      (if "accept-encoding".toList = name then ["gzip, deflate, br, zstd".toList] else []) ++
      (if "cookie".toList = name then s.cookie.toList else []) := by
  rw [promotions, fieldValues_append, fieldValues_append, fieldValues_append,
    fieldValues_append, fieldValues_optional, fieldValues_optional, fieldValues_optional,
    fieldValues_optional, fieldValues_cons]
  rfl

theorem fieldValues_promotions_of_notMem (s : Sidechannel) (hname : name ∉ promotedNames) :
    fieldValues name s.promotions = [] := by
  simp only [promotedNames, mem_cons, not_mem_nil, or_false, not_or] at hname
  obtain ⟨hreferer, horigin, hagent, hencoding, hcookie⟩ := hname
  simp only [fieldValues_promotions, if_neg (Ne.symm hreferer), if_neg (Ne.symm horigin),
    if_neg (Ne.symm hagent), if_neg (Ne.symm hencoding), if_neg (Ne.symm hcookie), append_nil]

theorem not_isInternal_of_mem {e : Field} (he : e ∈ requestHeaders entries) :
    isInternal (lower e.1) = false := by
  rw [requestHeaders, mem_orderRequestHeaders, unordered] at he
  rcases mem_append.1 he with he | he
  · rw [sidechannel, kept_foldl_note] at he
    have hpass : passes (lower e.1) := (mem_filter.1 he).2
    rw [passes, Bool.and_assoc, Bool.and_eq_true, Bool.not_eq_true'] at hpass
    exact hpass.1
  -- Every header that the kernel adds has one of five names.
  by_contra hint
  refine fieldValues_ne_nil he (fieldValues_promotions_of_notMem _ fun hmem => ?_)
  have hall : (promotedNames.all fun m => !isInternal m) := rfl
  have hnot := all_eq_true.1 hall _ hmem
  rw [Bool.not_eq_true'] at hnot
  exact hint hnot

theorem fieldValues_requestHeaders (hname : name ≠ []) : fieldValues name (requestHeaders entries) =
      (if passes name then fieldValues name entries else []) ++
        fieldValues name (sidechannel entries).promotions := by
  rw [requestHeaders, fieldValues_orderRequestHeaders, unordered, fieldValues_append, sidechannel,
    kept_foldl_note]
  refine congrArg (· ++ _) ?_
  change fieldValues name (filter _ _) = _
  rw [fieldValues_filter, fieldValues_named hname]

end

end ZeroProxy.Kernel
