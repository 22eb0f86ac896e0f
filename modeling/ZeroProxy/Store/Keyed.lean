import Mathlib.Data.List.Perm.Subperm
import Mathlib.Data.List.Induction
import Mathlib.Data.List.Sort

/-!
# Lists with keys

Stores that are kept as a list of elements with a key, in which an operation works
on the first element that has its key; and lists sorted by a key, in which elements with one
number keep their order.
-/

namespace ZeroProxy.Keyed

open List

variable {α κ : Type*} [DecidableEq κ] (key : α → κ)

/-- The record of a key. -/
def lookup (k : κ) (l : List α) : Option α := l.find? fun y => decide (key y = k)

/-- Replace the first element `y` with the key of `x` by `f y`, or add `x` at the end. -/
def put (f : α → α) (x : α) : List α → List α
  | [] => [x]
  | y :: l => if key y = key x then f y :: l else y :: put f x l

/-- The list without the record of a key. -/
def erase (k : κ) (l : List α) : List α := l.eraseP fun y => decide (key y = k)

/-- Add `x` at the end, unless its key is taken. -/
def add (x : α) (l : List α) : List α := if key x ∈ l.map key then l else l ++ [x]

/-- No key occurs twice. -/
def Distinct (l : List α) : Prop := (l.map key).Nodup

variable {key} {f : α → α} {x y : α} {k : κ} {l : List α}

/-! ## One element at the head -/

theorem lookup_cons_pos (hy : key y = k) : lookup key k (y :: l) = some y :=
  find?_cons_of_pos (by simpa using hy)

theorem lookup_cons_neg (hy : key y ≠ k) : lookup key k (y :: l) = lookup key k l :=
  find?_cons_of_neg (by simpa using hy)

theorem erase_cons_pos (hy : key y = k) : erase key k (y :: l) = l :=
  eraseP_cons_of_pos (by simpa using hy)

theorem erase_cons_neg (hy : key y ≠ k) : erase key k (y :: l) = y :: erase key k l :=
  eraseP_cons_of_neg (by simpa using hy)

theorem put_cons_pos (hy : key y = key x) : put key f x (y :: l) = f y :: l := if_pos hy

theorem put_cons_neg (hy : key y ≠ key x) : put key f x (y :: l) = y :: put key f x l := if_neg hy

/-! ## Lookup -/

theorem mem_of_lookup (h : lookup key k l = some y) : y ∈ l := mem_of_find?_eq_some h

theorem key_of_lookup (h : lookup key k l = some y) : key y = k := by
  have := find?_some h
  exact of_decide_eq_true this

theorem perm_cons_erase (h : lookup key k l = some y) : l.Perm (y :: erase key k l) := by
  induction l with
  | nil => cases h
  | cons z l ih =>
    by_cases hz : key z = k
    · rw [lookup_cons_pos hz] at h
      cases h
      rw [erase_cons_pos hz]
    · rw [lookup_cons_neg hz] at h
      rw [erase_cons_neg hz]
      exact ((ih h).cons z).trans (List.Perm.swap _ _ _)

theorem lookup_eq_none_iff : lookup key k l = none ↔ k ∉ l.map key := by
  rw [lookup, find?_eq_none, mem_map, not_exists]
  simp only [decide_eq_true_eq, not_and]

theorem lookup_of_mem (hl : Distinct key l) (hy : y ∈ l) : lookup key (key y) l = some y := by
  cases hf : lookup key (key y) l with
  | none => exact absurd (mem_map_of_mem hy) (lookup_eq_none_iff.1 hf)
  | some z => rw [inj_on_of_nodup_map hl (mem_of_lookup hf) hy (key_of_lookup hf)]

/-! ## Distinct keys -/

omit [DecidableEq κ] in
theorem Distinct.sublist {l' : List α} (hl : Distinct key l) (h : l'.Sublist l) : Distinct key l' :=
  List.Nodup.sublist (h.map key) hl

omit [DecidableEq κ] in
theorem distinct_nil : Distinct key ([] : List α) := nodup_nil

omit [DecidableEq κ] in
theorem Distinct.subperm {l' : List α} (hl : Distinct key l) (h : l'.Subperm l) :
    Distinct key l' := by
  obtain ⟨l₁, hperm, hsub⟩ := h
  exact (hperm.map key).nodup_iff.1 (hl.sublist hsub)

omit [DecidableEq κ] in
theorem Distinct.eq_of_key (hl : Distinct key l) {z : α} (hy : y ∈ l) (hz : z ∈ l)
    (h : key y = key z) : y = z := inj_on_of_nodup_map hl hy hz h

theorem distinct_erase (hl : Distinct key l) : Distinct key (erase key k l) :=
  hl.sublist eraseP_sublist

omit [DecidableEq κ] in
theorem distinct_filter (hl : Distinct key l) (p : α → Bool) : Distinct key (l.filter p) :=
  hl.sublist filter_sublist

omit [DecidableEq κ] in
theorem distinct_concat (hl : Distinct key l) (hx : key x ∉ l.map key) :
    Distinct key (l ++ [x]) := by
  rw [Distinct, map_append, map_singleton]
  exact hl.append (nodup_singleton _) (disjoint_singleton.2 hx)

theorem distinct_add (hl : Distinct key l) : Distinct key (add key x l) := by
  rw [add]
  split
  · exact hl
  · exact distinct_concat hl ‹_›

theorem map_put (hf : ∀ y, key y = key x → key (f y) = key x) : (put key f x l).map key =
      if key x ∈ l.map key then l.map key else l.map key ++ [key x] := by
  induction l with
  | nil => rfl
  | cons y l ih =>
    by_cases hy : key y = key x
    · rw [put_cons_pos hy, map_cons, map_cons, hf y hy, hy, if_pos (.head _)]
    · rw [put_cons_neg hy, map_cons, ih, map_cons]
      simp only [mem_cons, or_iff_right (Ne.symm hy)]
      split <;> rfl

theorem length_put (hf : ∀ y, key y = key x → key (f y) = key x) :
    (put key f x l).length = if key x ∈ l.map key then l.length else l.length + 1 := by
  rw [← length_map (f := key), map_put hf]
  split <;> simp

theorem distinct_put (hf : ∀ y, key y = key x → key (f y) = key x) (hl : Distinct key l) :
    Distinct key (put key f x l) := by
  rw [Distinct, map_put hf]
  split
  · exact hl
  · exact (map_append.trans rfl : (l ++ [x]).map key = _) ▸ distinct_concat hl ‹_›

/-! ## What is stored after an operation -/

theorem put_of_lookup_none (h : lookup key (key x) l = none) : put key f x l = l ++ [x] := by
  induction l with
  | nil => rfl
  | cons y l ih =>
    rw [lookup_eq_none_iff, map_cons, mem_cons, not_or] at h
    rw [put_cons_neg (Ne.symm h.1), ih (lookup_eq_none_iff.2 h.2), cons_append]

theorem mem_or_of_mem_put {z : α} (h : z ∈ put key f x l) : z ∈ l ∨ z = x ∨ ∃ y ∈ l, z = f y := by
  induction l with
  | nil => exact .inr (.inl (mem_singleton.1 h))
  | cons y l ih =>
    rw [put] at h
    split at h
    · rcases mem_cons.1 h with rfl | h
      · exact .inr (.inr ⟨y, .head _, rfl⟩)
      · exact .inl (.tail _ h)
    rcases mem_cons.1 h with rfl | h
    · exact .inl (.head _)
    · rcases ih h with h | h | ⟨w, hw, h⟩
      · exact .inl (.tail _ h)
      · exact .inr (.inl h)
      · exact .inr (.inr ⟨w, .tail _ hw, h⟩)

theorem mem_put (hl : Distinct key l) {z : α} : z ∈ put key f x l ↔
      z = ((lookup key (key x) l).map f).getD x ∨ (z ∈ l ∧ key z ≠ key x) := by
  induction l with
  | nil => simp [put, lookup]
  | cons y l ih =>
    have hy := nodup_cons.1 hl
    by_cases hyx : key y = key x
    · -- No other element has the key, so the rest of the list is among "the others".
      have hrest : ∀ w ∈ l, key w ≠ key x := fun w hw hwx =>
        hy.1 (hyx.trans hwx.symm ▸ mem_map_of_mem hw)
      rw [put_cons_pos hyx, lookup_cons_pos hyx, Option.map_some, mem_cons, mem_cons]
      refine or_congr_right ⟨fun hz => ⟨.inr hz, hrest z hz⟩, ?_⟩
      rintro ⟨rfl | hz, hne⟩
      · exact absurd hyx hne
      · exact hz
    rw [put_cons_neg hyx, mem_cons, ih hy.2, lookup_cons_neg hyx, mem_cons]
    constructor
    · rintro (rfl | hz | hz)
      · exact .inr ⟨.inl rfl, hyx⟩
      · exact .inl hz
      · exact .inr ⟨.inr hz.1, hz.2⟩
    · rintro (hz | ⟨rfl | hz, hne⟩)
      · exact .inr (.inl hz)
      · exact .inl rfl
      · exact .inr (.inr ⟨hz, hne⟩)

theorem mem_erase (hl : Distinct key l) : y ∈ erase key k l ↔ y ∈ l ∧ key y ≠ k := by
  induction l with
  | nil => simp [erase]
  | cons z l ih =>
    have hz := nodup_cons.1 hl
    by_cases hzk : key z = k
    · have hrest : ∀ w ∈ l, key w ≠ k := fun w hw hwk =>
        hz.1 (hzk.trans hwk.symm ▸ mem_map_of_mem hw)
      rw [erase_cons_pos hzk, mem_cons]
      constructor
      · exact fun hy => ⟨.inr hy, hrest y hy⟩
      · rintro ⟨rfl | hy, hne⟩
        · exact absurd hzk hne
        · exact hy
    rw [erase_cons_neg hzk, mem_cons, ih hz.2, mem_cons]
    constructor
    · rintro (rfl | ⟨hy, hne⟩)
      · exact ⟨.inl rfl, hzk⟩
      · exact ⟨.inr hy, hne⟩
    · rintro ⟨rfl | hy, hne⟩
      · exact .inl rfl
      · exact .inr ⟨hy, hne⟩

theorem mem_add : y ∈ add key x l ↔ y ∈ l ∨ (y = x ∧ key x ∉ l.map key) := by
  rw [add]
  split
  · exact ⟨.inl, fun h => h.elim id fun h => absurd ‹_› h.2⟩
  · rw [mem_append, mem_singleton, and_iff_left ‹_›]

/-! ## What an operation leaves of a set of elements -/

section Keeps

variable {q : α → Bool}

theorem filter_erase_eq_iff :
    (erase key k l).filter q = l.filter q ↔ ∀ y, lookup key k l = some y → q y = false := by
  induction l with
  | nil => exact ⟨fun _ _ h => absurd h (Option.some_ne_none _).symm, fun _ => rfl⟩
  | cons z l ih =>
    by_cases hz : key z = k
    · rw [lookup_cons_pos hz, erase_cons_pos hz]
      refine ⟨?_, fun h => (filter_cons_of_neg (Bool.eq_false_iff.1 (h z rfl))).symm⟩
      intro h y hy
      cases hy
      by_contra hq
      rw [filter_cons_of_pos (eq_true_of_ne_false hq)] at h
      exact cons_ne_self _ _ h.symm
    · rw [lookup_cons_neg hz, erase_cons_neg hz, ← ih]
      cases hq : q z
      · rw [filter_cons_of_neg (by rw [hq]; exact Bool.false_ne_true),
          filter_cons_of_neg (by rw [hq]; exact Bool.false_ne_true)]
      · rw [filter_cons_of_pos hq, filter_cons_of_pos hq, cons_inj_right]

theorem filter_put_eq_iff : (put key f x l).filter q = l.filter q ↔ match lookup key (key x) l with
      | none => q x = false
      | some y => q y ∨ q (f y) → f y = y := by
  induction l with
  | nil => cases hq : q x <;> simp [put, lookup, hq]
  | cons z l ih =>
    by_cases hz : key z = key x
    · rw [lookup_cons_pos hz, put_cons_pos hz, filter_cons, filter_cons]
      dsimp only
      cases hz : q z <;> cases hfz : q (f z) <;> simp
      exact fun h => by rw [h, hz] at hfz; cases hfz
      exact fun h => by rw [h, hz] at hfz; cases hfz
    · rw [lookup_cons_neg hz, put_cons_neg hz, ← ih, filter_cons, filter_cons]
      cases q z
      · rfl
      · exact cons_inj_right _

end Keeps

/-! ## Sets of keys -/

section Filter

variable {p : κ → Bool}

omit [DecidableEq κ] in
theorem mem_map_filter : k ∈ (l.filter fun y => p (key y)).map key ↔ k ∈ l.map key ∧ p k := by
  simp only [List.mem_map, mem_filter]
  constructor
  · rintro ⟨y, ⟨hy, hp⟩, rfl⟩
    exact ⟨⟨y, hy, rfl⟩, hp⟩
  · rintro ⟨⟨y, hy, rfl⟩, hp⟩
    exact ⟨y, ⟨hy, hp⟩, rfl⟩

theorem lookup_filter (hk : p k) : lookup key k (l.filter fun y => p (key y)) = lookup key k l := by
  rw [lookup, find?_filter, lookup]
  congr 1
  funext y
  by_cases hy : key y = k
  · rw [decide_eq_decide, hy, and_iff_right hk, decide_eq_true_eq]
  · rw [decide_eq_decide, decide_eq_true_eq, and_iff_right_of_imp fun h => absurd h hy]

theorem filter_put (hf : ∀ y, key y = key x → key (f y) = key x) :
    (put key f x l).filter (fun y => p (key y)) =
      if p (key x) then put key f x (l.filter fun y => p (key y))
      else l.filter fun y => p (key y) := by
  induction l with
  | nil => cases hp : p (key x) <;> simp [put, hp]
  | cons y l ih =>
    by_cases hy : key y = key x
    · rw [put_cons_pos hy, filter_cons, filter_cons, hf y hy, hy]
      cases p (key x)
      · rfl
      · rw [if_pos rfl, if_pos rfl, if_pos rfl, put_cons_pos hy]
    rw [put_cons_neg hy, filter_cons, filter_cons, ih]
    cases p (key y)
    · rfl
    · rw [if_pos rfl, if_pos rfl]
      split
      · rw [put_cons_neg hy]
      · rfl

theorem filter_erase : (erase key k l).filter (fun y => p (key y)) =
      if p k then erase key k (l.filter fun y => p (key y)) else l.filter fun y => p (key y) := by
  induction l with
  | nil => simp [erase]
  | cons y l ih =>
    by_cases hy : key y = k
    · rw [erase_cons_pos hy, filter_cons, hy]
      cases p k
      · rfl
      · rw [if_pos rfl, if_pos rfl, erase_cons_pos hy]
    rw [erase_cons_neg hy, filter_cons, filter_cons, ih]
    cases p (key y)
    · rfl
    · rw [if_pos rfl, if_pos rfl]
      split
      · rw [erase_cons_neg hy]
      · rfl

theorem filter_add : (add key x l).filter (fun y => p (key y)) =
      if p (key x) then add key x (l.filter fun y => p (key y)) else l.filter fun y => p (key y) := by
  simp only [add, mem_map_filter]
  by_cases hx : key x ∈ l.map key
  · rw [if_pos hx]
    cases hp : p (key x)
    · rfl
    · rw [if_pos rfl, if_pos ⟨hx, rfl⟩]
  · rw [if_neg hx, filter_append, filter_singleton]
    cases hp : p (key x)
    · rw [if_neg Bool.false_ne_true, cond_false, append_nil]
    · rw [if_pos rfl, cond_true, if_neg fun h => hx h.1]

end Filter

section Renaming

variable {β κ' : Type*} [DecidableEq κ']

/-- The entries whose key has a new name, under that name. -/
def renamed (g : κ → Option κ') (l : List (κ × β)) : List (κ' × β) :=
  l.filterMap fun e => (g e.1).map fun k => (k, e.2)

variable {g : κ → Option κ'} {a : κ} {b : κ'} {v : β} {l : List (κ × β)}

omit [DecidableEq κ] [DecidableEq κ'] in
theorem renamed_cons_some {e : κ × β} (he : g e.1 = some b) :
    renamed g (e :: l) = (b, e.2) :: renamed g l := by
  rw [renamed, filterMap_cons, he]
  rfl

omit [DecidableEq κ] [DecidableEq κ'] in
theorem renamed_cons_none {e : κ × β} (he : g e.1 = none) : renamed g (e :: l) = renamed g l := by
  rw [renamed, filterMap_cons, he]
  rfl

omit [DecidableEq κ] [DecidableEq κ'] in
theorem map_fst_renamed : (renamed g l).map Prod.fst = l.filterMap fun e => g e.1 := by
  rw [renamed, map_filterMap]
  refine filterMap_congr fun e _ => ?_
  cases g e.1 <;> rfl

omit [DecidableEq κ] [DecidableEq κ'] in
theorem distinct_renamed (hg : ∀ a a' b, g a = some b → g a' = some b → a = a')
    (hl : Distinct Prod.fst l) : Distinct Prod.fst (renamed g l) := by
  have hnodup : ((l.map Prod.fst).filterMap g).Nodup := List.Nodup.filterMap hg hl
  rw [filterMap_map] at hnodup
  rw [Distinct, map_fst_renamed]
  exact hnodup

variable (hab : g a = some b) (hba : ∀ a', g a' = some b → a' = a)
include hab hba

theorem lookup_renamed :
    (lookup Prod.fst b (renamed g l)).map Prod.snd = (lookup Prod.fst a l).map Prod.snd := by
  induction l with
  | nil => rfl
  | cons e l ih =>
    by_cases he : e.1 = a
    · rw [renamed_cons_some (he ▸ hab), lookup_cons_pos (y := (b, e.2)) rfl, lookup_cons_pos he]
      rfl
    · rw [lookup_cons_neg he, ← ih]
      cases hg : g e.1 with
      | none => rw [renamed_cons_none hg]
      | some b' =>
        rw [renamed_cons_some hg, lookup_cons_neg fun hb => he (hba _ (hg.trans (congrArg _ hb)))]

theorem renamed_put : renamed g (put Prod.fst (fun _ => (a, v)) (a, v) l) =
      put Prod.fst (fun _ => (b, v)) (b, v) (renamed g l) := by
  induction l with
  | nil => exact renamed_cons_some hab
  | cons e l ih =>
    by_cases he : e.1 = a
    · rw [put_cons_pos he, renamed_cons_some hab, renamed_cons_some (he ▸ hab),
        put_cons_pos (y := (b, e.2)) (x := (b, v)) rfl]
    rw [put_cons_neg he]
    cases hg : g e.1 with
    | none => rw [renamed_cons_none hg, renamed_cons_none hg, ih]
    | some b' =>
      rw [renamed_cons_some hg, renamed_cons_some hg, ih,
        put_cons_neg fun hb => he (hba _ (hg.trans (congrArg _ hb)))]

theorem renamed_erase : renamed g (erase Prod.fst a l) = erase Prod.fst b (renamed g l) := by
  induction l with
  | nil => rfl
  | cons e l ih =>
    by_cases he : e.1 = a
    · rw [erase_cons_pos he, renamed_cons_some (he ▸ hab), erase_cons_pos (y := (b, e.2)) rfl]
    rw [erase_cons_neg he]
    cases hg : g e.1 with
    | none => rw [renamed_cons_none hg, renamed_cons_none hg, ih]
    | some b' =>
      rw [renamed_cons_some hg, renamed_cons_some hg, ih,
        erase_cons_neg fun hb => he (hba _ (hg.trans (congrArg _ hb)))]

end Renaming

/-! ## Edits

Sequences of replacements and removals, where an element that replaces another takes something over
from it (`update`). -/

variable {α κ : Type*} [DecidableEq κ]

/-- A change of a list of records. -/
inductive Edit (α κ : Type*)
  | put (x : α)
  | erase (k : κ)

variable (key : α → κ) (update : α → α → α)

/-- A list after a change. -/
def runEdit (l : List α) : Edit α κ → List α
  | .put x => put key (update x) x l
  | .erase k => erase key k l

/-- A list after changes. -/
def runEdits (es : List (Edit α κ)) (l : List α) : List α := es.foldl (runEdit key update) l

/-- A list after records are put. -/
def puts (xs l : List α) : List α := xs.foldl (fun l x => put key (update x) x l) l

/-- The keys that are erased. -/
def dropped (es : List (Edit α κ)) : Set κ := {k | .erase k ∈ es}

/-- The elements that are put and not removed later, each in the place where its key was put
    first. -/
def kept (es : List (Edit α κ)) : List α :=
  es.foldl (fun l e => match e with
    | .put x => put key (fun _ => x) x l
    | .erase k => l.filter fun y => decide (key y ≠ k)) []

/-- The laws of taking over: the key is the new one's, and it makes no difference what was
    taken over before. -/
structure Lawful : Prop where
  key_update : ∀ x y, key (update x y) = key x
  update_update : ∀ x y z, update x (update z y) = update x y

/-- The elements of the edits have nothing to take over from each other. -/
def Fresh (es : List (Edit α κ)) : Prop :=
  ∀ x z, .put x ∈ es → .put z ∈ es → update x z = x

variable {key update} {x s : α} {l xs : List α} {es : List (Edit α κ)}

/-! ## Puts -/

theorem puts_cons : puts key update (x :: xs) l = puts key update xs (put key (update x) x l) := rfl

theorem erase_eq_filter (hl : Distinct key l) (k : κ) :
    erase key k l = l.filter fun y => decide (key y ≠ k) := by
  induction l with
  | nil => rfl
  | cons y l ih =>
    have hy := nodup_cons.1 hl
    by_cases hk : key y = k
    · rw [erase_cons_pos hk, filter_cons_of_neg (by simpa using hk), filter_eq_self.2]
      refine fun z hz => decide_eq_true fun hzk => hy.1 ?_
      exact mem_map.2 ⟨z, hz, hzk.trans hk.symm⟩
    · rw [erase_cons_neg hk, filter_cons_of_pos (by simpa using hk), ih hy.2]

theorem mem_keys_put (h : Lawful key update) {k : κ} :
    k ∈ (put key (update x) x l).map key ↔ k ∈ l.map key ∨ k = key x := by
  rw [map_put fun y _ => h.key_update x y]
  split
  · exact ⟨.inl, fun hk => hk.elim id fun hk => hk ▸ ‹_›⟩
  · rw [mem_append, mem_singleton]

theorem distinct_puts (h : Lawful key update) (hl : Distinct key l) : Distinct key (puts key update xs l) := by
  induction xs generalizing l with
  | nil => exact hl
  | cons x xs ih => exact ih (distinct_put (fun y _ => h.key_update x y) hl)

theorem filter_puts (h : Lawful key update) (p : κ → Bool) :
    (puts key update xs l).filter (fun y => p (key y)) =
      puts key update (xs.filter fun y => p (key y)) (l.filter fun y => p (key y)) := by
  induction xs generalizing l with
  | nil => rfl
  | cons x xs ih =>
    rw [puts_cons, ih, filter_put fun y _ => h.key_update x y, filter_cons]
    split <;> rfl

theorem put_put (h : Lawful key update) (hkey : key s = key x) (hxs : update x s = x) :
    put key (update x) x (put key (update s) s l) = put key (update x) x l := by
  induction l with
  | nil => rw [put, put_cons_pos hkey, hxs, put]
  | cons y l ih =>
    by_cases hy : key y = key s
    · rw [put_cons_pos hy, put_cons_pos ((h.key_update s y).trans hkey), put_cons_pos (hy.trans hkey),
        h.update_update]
    · have hyx : key y ≠ key x := fun hk => hy (hk.trans hkey.symm)
      rw [put_cons_neg hy, put_cons_neg hyx, put_cons_neg hyx, ih]

theorem put_comm (h : Lawful key update) (hne : key s ≠ key x) (hx : key x ∈ l.map key) :
    put key (update x) x (put key (update s) s l) = put key (update s) s (put key (update x) x l) := by
  induction l with
  | nil => cases hx
  | cons y l ih =>
    by_cases hys : key y = key s
    · have hyx : key y ≠ key x := fun hk => hne (hys.symm.trans hk)
      rw [put_cons_pos hys, put_cons_neg hyx, put_cons_pos hys,
        put_cons_neg (by rw [h.key_update]; exact hne)]
    · by_cases hyx : key y = key x
      · rw [put_cons_neg hys, put_cons_pos hyx, put_cons_pos hyx,
          put_cons_neg (by rw [h.key_update]; exact hne.symm)]
      · rw [put_cons_neg hys, put_cons_neg hyx, put_cons_neg hyx, put_cons_neg hys, ih]
        exact (mem_cons.1 hx).resolve_left (Ne.symm hyx)

theorem put_puts_comm (h : Lawful key update) (hxs : key x ∉ xs.map key) (hx : key x ∈ l.map key) :
    put key (update x) x (puts key update xs l) = puts key update xs (put key (update x) x l) := by
  induction xs generalizing l with
  | nil => rfl
  | cons s xs ih =>
    rw [map_cons, mem_cons, not_or] at hxs
    rw [puts_cons, ih hxs.2 ((mem_keys_put h).2 (.inl hx)), put_comm h (Ne.symm hxs.1) hx]
    rfl

theorem put_puts (h : Lawful key update) (hd : Distinct key xs)
    (hfresh : ∀ s ∈ xs, update x s = x) :
    put key (update x) x (puts key update xs l) =
      puts key update (put key (fun _ => x) x xs) l := by
  induction xs generalizing l with
  | nil => rfl
  | cons s xs ih =>
    have hs := nodup_cons.1 hd
    by_cases hsx : key s = key x
    · rw [put_cons_pos hsx, puts_cons, puts_cons,
        put_puts_comm h (hsx ▸ hs.1) ((mem_keys_put h).2 (.inr hsx.symm)),
        put_put h hsx (hfresh s (.head _))]
    · rw [put_cons_neg hsx, puts_cons, puts_cons,
        ih hs.2 fun z hz => hfresh z (.tail _ hz)]

theorem puts_append (hd : Distinct key (l ++ xs)) : puts key update xs l = l ++ xs := by
  induction xs generalizing l with
  | nil => rw [append_nil]; rfl
  | cons x xs ih =>
    have hx : lookup key (key x) l = none := by
      rw [lookup_eq_none_iff]
      intro hmem
      rw [Distinct, map_append, nodup_append] at hd
      exact hd.2.2 _ hmem _ (.head _) rfl
    have hassoc : l ++ x :: xs = (l ++ [x]) ++ xs := by
      rw [append_assoc, singleton_append]
    rw [puts_cons, put_of_lookup_none hx, hassoc, ih (hassoc ▸ hd)]

/-! ## The net effect -/

theorem kept_concat_put (es : List (Edit α κ)) (x : α) :
    kept key (es ++ [.put x]) = put key (fun _ => x) x (kept key es) := by
  rw [kept, foldl_append]
  rfl

theorem kept_concat_erase (es : List (Edit α κ)) (k : κ) :
    kept key (es ++ [.erase k]) = (kept key es).filter fun y => decide (key y ≠ k) := by
  rw [kept, foldl_append]
  rfl

theorem distinct_kept (es : List (Edit α κ)) : Distinct key (kept key es) := by
  induction es using reverseRecOn with
  | nil => exact distinct_nil
  | append_singleton es e ih =>
    cases e with
    | put x =>
      rw [kept_concat_put]
      exact distinct_put (fun _ _ => rfl) ih
    | erase k =>
      rw [kept_concat_erase]
      exact distinct_filter ih _

theorem put_mem_of_mem_kept (hx : x ∈ kept key es) : .put x ∈ es := by
  induction es using reverseRecOn with
  | nil => cases hx
  | append_singleton es e ih =>
    cases e with
    | put z =>
      rw [kept_concat_put] at hx
      rcases mem_or_of_mem_put hx with hx | rfl | ⟨-, -, rfl⟩
      · exact mem_append_left _ (ih hx)
      · exact mem_append_right _ (.head _)
      · exact mem_append_right _ (.head _)
    | erase k =>
      rw [kept_concat_erase] at hx
      exact mem_append_left _ (ih (mem_of_mem_filter hx))

omit [DecidableEq κ] in
theorem eq_nil_or_singleton {k : κ} (hl : Distinct key l) (hk : ∀ y ∈ l, key y = k) :
    l = [] ∨ ∃ y, l = [y] := by
  match l, hl, hk with
  | [], _, _ => exact .inl rfl
  | [y], _, _ => exact .inr ⟨y, rfl⟩
  | y :: z :: _, hl, hk =>
    refine absurd ?_ (nodup_cons.1 hl).1
    rw [hk y (by simp), map_cons, hk z (by simp)]
    exact mem_cons_self

open Classical in
theorem runEdits_eq_puts (h : Lawful key update) (hfresh : Fresh update es) (hl : Distinct key l) :
    runEdits key update es l =
      puts key update (kept key es) (l.filter fun y => decide (key y ∉ dropped es)) := by
  induction es using List.reverseRecOn with
  | nil =>
    have hall : (l.filter fun y => decide (key y ∉ dropped ([] : List (Edit α κ)))) = l :=
      filter_eq_self.2 fun y _ => decide_eq_true not_mem_nil
    rw [hall]
    rfl
  | append_singleton es e ih =>
    have ih := ih fun x z hx hz => hfresh x z (mem_append_left _ hx) (mem_append_left _ hz)
    have hlast : runEdits key update (es ++ [e]) l = runEdit key update (runEdits key update es l) e := by
      rw [runEdits, foldl_append]
      rfl
    rw [hlast, ih]
    cases e with
    | put x =>
      have hdrop : dropped (es ++ [.put x]) = dropped es := by
        ext k
        simp [dropped]
      rw [runEdit, kept_concat_put, hdrop, put_puts h (distinct_kept es) fun s hs => ?_]
      exact hfresh x s (by simp) (mem_append_left _ (put_mem_of_mem_kept hs))
    | erase k =>
      rw [runEdit, kept_concat_erase, erase_eq_filter (distinct_puts h (distinct_filter hl _)),
        filter_puts h fun k' => decide (k' ≠ k), List.filter_filter]
      congr 1
      refine filter_congr fun y _ => ?_
      rw [← Bool.decide_and, decide_eq_decide]
      simp [dropped, and_comm]

theorem runEdits_eq_iff (h : Lawful key update) {es' : List (Edit α κ)} (hes : Fresh update es)
    (hes' : Fresh update es') (hprobe : ∀ k, ∃ y, key y = k ∧ ∀ x, .put x ∈ es → update x y ≠ x) :
    (∀ l, Distinct key l → runEdits key update es l = runEdits key update es' l) ↔
      dropped es = dropped es' ∧ kept key es = kept key es' := by
  classical
  constructor
  · intro heq
    -- What is kept is what an empty store ends with.
    have hkept (es : List (Edit α κ)) (hes : Fresh update es) :
        runEdits key update es [] = kept key es := by
      rw [runEdits_eq_puts h hes distinct_nil]
      exact puts_append (distinct_kept es)
    have hk : kept key es = kept key es' := by
      rw [← hkept es hes, heq [] distinct_nil, hkept es' hes']
    refine ⟨?_, hk⟩
    ext k
    -- A store that holds only the probe tells whether its key is dropped.
    obtain ⟨y, rfl, hy⟩ := hprobe k
    have hsingle : Distinct key [y] := nodup_singleton (key y)
    have hone := heq [y] hsingle
    rw [runEdits_eq_puts h hes hsingle, runEdits_eq_puts h hes' hsingle, ← hk] at hone
    have hdiff : puts key update (kept key es) [] ≠ puts key update (kept key es) [y] := by
      intro hputs
      have hfilter := congrArg (filter fun z => decide (key z = key y)) hputs
      rw [filter_puts h fun k => decide (k = key y), filter_puts h fun k => decide (k = key y),
        filter_cons_of_pos (by simp)] at hfilter
      rcases eq_nil_or_singleton (distinct_filter (distinct_kept es) _) (k := key y)
        (fun z hz => of_decide_eq_true (mem_filter.1 hz).2) with hnil | ⟨x, hx⟩
      · rw [hnil] at hfilter
        cases hfilter
      · have hmem : x ∈ (kept key es).filter fun z => decide (key z = key y) :=
          hx ▸ mem_singleton_self x
        obtain ⟨hxk, hxy⟩ := mem_filter.1 hmem
        rw [hx, puts_cons, puts_cons, put_cons_pos (of_decide_eq_true hxy).symm] at hfilter
        exact hy x (put_mem_of_mem_kept hxk) (cons.inj hfilter).1.symm
    by_cases h1 : key y ∈ dropped es <;> by_cases h2 : key y ∈ dropped es' <;>
      simp only [filter_cons, h1, h2] at hone ⊢
    · exact absurd hone hdiff
    · exact absurd hone.symm hdiff
  · rintro ⟨hd, hk⟩ l hl
    rw [runEdits_eq_puts h hes hl, runEdits_eq_puts h hes' hl, hd, hk]

end ZeroProxy.Keyed

namespace ZeroProxy.StableSort

open List

variable {α : Type*} (key : α → Nat) (l : List α)

/-- The records in the order of their keys. -/
def sortByKey : List α := l.insertionSort fun a b => key a ≤ key b

theorem perm_sortByKey : (sortByKey key l).Perm l := perm_insertionSort _ l

theorem pairwise_sortByKey : (sortByKey key l).Pairwise fun a b => key a ≤ key b :=
  have : Std.Total fun a b : α => key a ≤ key b := ⟨fun a b => Nat.le_total (key a) (key b)⟩
  have : IsTrans α fun a b => key a ≤ key b := ⟨fun _ _ _ => Nat.le_trans⟩
  pairwise_insertionSort _ l

variable {key l}

theorem mem_sortByKey {a : α} : a ∈ sortByKey key l ↔ a ∈ l := (perm_sortByKey key l).mem_iff

theorem filter_sortByKey {p : α → Bool} (h : ∀ a ∈ l, ∀ b ∈ l, p a → p b → key a = key b) :
    (sortByKey key l).filter p = l.filter p := by
  have hsorted : (l.filter p).Pairwise fun a b => key a ≤ key b := by
    refine pairwise_of_forall_mem_list fun a ha b hb => Nat.le_of_eq ?_
    obtain ⟨ha, hpa⟩ := mem_filter.1 ha
    obtain ⟨hb, hpb⟩ := mem_filter.1 hb
    exact h a ha b hb hpa hpb
  have hsub : (l.filter p).Sublist (sortByKey key l) :=
    sublist_insertionSort hsorted filter_sublist
  -- The class is a sublist of the sorted list, and has all its elements there.
  refine (Sublist.eq_of_length ?_ ((perm_sortByKey key l).filter p).length_eq.symm).symm
  simpa using hsub.filter p

end ZeroProxy.StableSort
