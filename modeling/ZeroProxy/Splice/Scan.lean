import Mathlib.Data.List.Sort

/-!
# Splicing edits into a list

An *edit* replaces the elements of a list from one position to another; one that begins
where it ends is an insertion. Of edits that overlap only some are made. There are two ways
to say which, and what comes out: edits are sorted and chosen, or the positions are gone
through. They agree (`splice_choose_sort`). Of edits that are nested or apart, exactly those are
made that no other edit hides, and once each (`mem_printed_iff`, `nodup_printed`); what
lies outside all edits is copied (`outside_sublist`).
-/

namespace ZeroProxy.Splice

open Bool List

variable {ι κ χ : Type*} (start stop : ι → Nat)

/-! ## Sorting and keeping -/

/-- The order of the edits: by their beginning, insertions first, then by their end, the
    furthest first. -/
def Precedes (p q : ι) : Prop :=
  start p < start q ∨ start p = start q ∧
    (stop p = start p ∧ stop q ≠ start q ∨
      (stop p = start p ↔ stop q = start q) ∧ stop q ≤ stop p)

instance : DecidableRel (Precedes start stop) := fun p q => by
  unfold Precedes
  infer_instance

instance : Std.Total (Precedes start stop) := ⟨fun p q => by
  unfold Precedes
  omega⟩

instance : IsTrans ι (Precedes start stop) := ⟨fun p q r => by
  unfold Precedes
  omega⟩

/-- Edits in the order in which they are made. -/
def sort (items : List ι) : List ι := items.insertionSort (Precedes start stop)

/-- The edits that begin no earlier than the last one kept has ended. -/
def choose : Nat → List ι → List ι
  | _, [] => []
  | last, p :: ps => if start p < last then choose last ps else p :: choose (stop p) ps

variable (src : List χ) (emit : ι → List χ)

/-- The list from `cursor` on with edits made; those that do not fit are skipped. -/
def splice : Nat → List ι → List χ
  | cursor, [] => src.drop cursor
  | cursor, p :: ps =>
    if start p < cursor ∨ src.length < stop p ∨ stop p < start p then splice cursor ps
    else (src.take (start p)).drop cursor ++ emit p ++ splice (stop p) ps

/-! ## Going through the positions -/

variable (items : List ι)

/-- The insertions at a position. -/
def inserts (i : Nat) : List ι := items.filter fun p => start p = i ∧ stop p = i

/-- The edit at a position that reaches furthest, the first of them. -/
def outer? (i : Nat) : Option ι :=
  items.find? fun p => start p = i ∧ i < stop p ∧ ∀ q ∈ items, start q = i → stop q ≤ stop p

/-- The edits made and the elements copied, from position `i` on, where the elements from
    there on are given. Up to `skip`, an edit has been made. -/
def pieces : Nat → Nat → List χ → List (ι ⊕ χ)
  | i, skip, [] => if i < skip then [] else (inserts start stop items i).map .inl
  | i, skip, c :: s =>
    if i < skip then pieces (i + 1) skip s
    else (inserts start stop items i).map .inl ++
      match outer? start stop items i with
      | some p => .inl p :: pieces (i + 1) (stop p) s
      | none => .inr c :: pieces (i + 1) skip s

/-- What comes out for a piece. -/
def write : ι ⊕ χ → List χ
  | .inl p => emit p
  | .inr c => [c]

/-! ## They agree -/

/-- `choose` and `splice` in one. -/
def run : Nat → List ι → List χ
  | cursor, [] => src.drop cursor
  | cursor, p :: ps =>
    if start p < cursor then run cursor ps
    else (src.take (start p)).drop cursor ++ emit p ++ run (stop p) ps

variable {start stop src items}

variable {ps : List ι}

theorem splice_choose (h : ∀ p ∈ ps, start p ≤ stop p ∧ stop p ≤ src.length)
    (cursor : Nat) : splice start stop src emit cursor (choose start stop cursor ps) =
      run start stop src emit cursor ps := by
  induction ps generalizing cursor with
  | nil => rfl
  | cons p ps ih =>
    rw [forall_mem_cons] at h
    rw [choose, run]
    split
    · exact ih h.2 cursor
    · have hfits : ¬ (start p < cursor ∨ src.length < stop p ∨ stop p < start p) := by omega
      rw [splice, if_neg hfits, ih h.2]

variable {i skip : Nat}

theorem run_filter (h : ∀ p ∈ ps, start p ≤ stop p) {cursor : Nat}
    (hi : i ≤ cursor) : run start stop src emit cursor (ps.filter fun p => i ≤ start p) =
      run start stop src emit cursor ps := by
  induction ps generalizing cursor with
  | nil => rfl
  | cons p ps ih =>
    rw [forall_mem_cons] at h
    by_cases hp : i ≤ start p
    · rw [filter_cons_of_pos (by simpa using hp), run, run]
      split
      · exact ih h.2 hi
      · next hle => rw [ih h.2 (by omega)]
    · rw [filter_cons_of_neg (by simpa using hp), run, if_pos (by omega), ih h.2 hi]

variable {s : List χ}

theorem run_cons (h : ∀ p ∈ ps, i + 1 ≤ start p) {c : χ} (hs : src.drop i = c :: s) :
    run start stop src emit i ps = c :: run start stop src emit (i + 1) ps := by
  have hdrop : src.drop (i + 1) = s := by rw [← tail_drop, hs, tail_cons]
  cases ps with
  | nil => rw [run, run, hs, hdrop]
  | cons p ps =>
    have hp := h p (.head _)
    have htake : (src.take (start p)).drop i = c :: (src.take (start p)).drop (i + 1) := by
      obtain ⟨n, hn⟩ := Nat.exists_eq_add_of_le hp
      rw [drop_take, drop_take, hs, hdrop, hn, Nat.add_assoc, Nat.add_sub_cancel_left,
        ← Nat.add_assoc, Nat.add_sub_cancel_left, Nat.add_comm 1, take_succ_cons]
    rw [run, run, if_neg (by omega), if_neg (by omega), htake, cons_append, cons_append]

theorem run_inserts {zs : List ι} (h : ∀ p ∈ zs, start p = i ∧ stop p = i)
    (ps : List ι) : run start stop src emit i (zs ++ ps) =
      zs.flatMap emit ++ run start stop src emit i ps := by
  induction zs with
  | nil => rfl
  | cons z zs ih =>
    rw [forall_mem_cons] at h
    rw [cons_append, run, h.1.1, h.1.2, if_neg (lt_irrefl i), drop_take_self, ih h.2, nil_append,
      flatMap_cons, append_assoc]

theorem run_skip {zs : List ι} {cursor : Nat} (h : ∀ p ∈ zs, start p < cursor) (ps : List ι) :
    run start stop src emit cursor (zs ++ ps) = run start stop src emit cursor ps := by
  induction zs with
  | nil => rfl
  | cons z zs ih =>
    rw [forall_mem_cons] at h
    rw [cons_append, run, if_pos h.1, ih h.2]

/-! ### What sorting does at one position -/

theorem filter_or {l : List ι} {p q : ι → Bool} (h : l.Pairwise fun x y => ¬ (q x ∧ p y))
    (hpq : ∀ x, ¬ (p x ∧ q x)) :
    l.filter (fun x => p x || q x) = l.filter p ++ l.filter q := by
  induction l with
  | nil => rfl
  | cons x l ih =>
    rw [pairwise_cons] at h
    have hx := hpq x
    simp only [filter_cons, ih h.2]
    cases hp : p x with
    | true =>
      cases hq : q x with
      | true => exact absurd ⟨hp, hq⟩ hx
      | false => rfl
    | false =>
      cases hq : q x with
      | true =>
        have hnone : l.filter p = [] := filter_eq_nil_iff.2 fun y hy hpy => h.1 y hy ⟨hq, hpy⟩
        rw [hnone]
        rfl
      | false => rfl

theorem filter_sort {p : ι → Bool} (h : ∀ x y, p x → p y → Precedes start stop x y) :
    (sort start stop items).filter p = items.filter p := by
  have hpair : (items.filter p).Pairwise (Precedes start stop) :=
    pairwise_of_forall_mem_list fun x hx y hy =>
      h x y (mem_filter.1 hx).2 (mem_filter.1 hy).2
  have hsub : (items.filter p).Sublist ((sort start stop items).filter p) := by
    have hfilter := (sublist_insertionSort hpair filter_sublist).filter p
    simp only [filter_filter, Bool.and_self] at hfilter
    exact hfilter
  refine (hsub.eq_of_length ?_).symm
  exact ((perm_insertionSort (Precedes start stop) items).filter p).length_eq.symm

variable {p : ι}

theorem mem_sort : p ∈ sort start stop items ↔ p ∈ items :=
  mem_insertionSort (Precedes start stop)

theorem pairwise_sort : (sort start stop items).Pairwise (Precedes start stop) :=
  pairwise_insertionSort (Precedes start stop) items

theorem head?_filter_sort (i : Nat) :
    ((sort start stop items).filter fun p => start p = i ∧ i < stop p).head? =
      outer? start stop items i := by
  cases hN : (sort start stop items).filter fun p => start p = i ∧ i < stop p with
  | nil =>
    rw [head?_nil, outer?, eq_comm, find?_eq_none]
    intro p hp hq
    rw [decide_eq_true_eq] at hq
    rw [filter_eq_nil_iff] at hN
    exact hN p (mem_sort.2 hp) (decide_eq_true ⟨hq.1, hq.2.1⟩)
  | cons p rest =>
    have hmem : ∀ {q}, q ∈ p :: rest ↔ q ∈ items ∧ start q = i ∧ i < stop q := fun {q} => by
      rw [← hN, mem_filter, mem_sort, decide_eq_true_eq]
    obtain ⟨hpitems, hpstart, hpstop⟩ := hmem.1 (.head _)
    have hmax : ∀ q ∈ items, start q = i → stop q ≤ stop p := by
      intro q hq hqi
      by_cases hqstop : i < stop q
      · rcases mem_cons.1 (hmem.2 ⟨hq, hqi, hqstop⟩) with rfl | hrest
        · exact le_refl _
        have hpair := (@pairwise_sort _ start stop items).filter fun p =>
          decide (start p = i ∧ i < stop p)
        rw [hN, pairwise_cons] at hpair
        have hpre := hpair.1 q hrest
        unfold Precedes at hpre
        omega
      · omega
    -- The edits that reach as far are in the same order before and after sorting.
    have hclass : outer? start stop items i =
        (items.filter fun q => decide (start q = i ∧ stop q = stop p)).head? := by
      rw [outer?, ← head?_filter]
      refine congrArg head? (filter_congr fun q hq => ?_)
      rw [decide_eq_decide]
      constructor
      · rintro ⟨hqi, -, hqmax⟩
        exact ⟨hqi, le_antisymm (hmax q hq hqi) (hqmax p hpitems hpstart)⟩
      · rintro ⟨hqi, hqstop⟩
        exact ⟨hqi, hqstop ▸ hpstop, fun r hr hri => hqstop ▸ hmax r hr hri⟩
    have hfilter : (p :: rest).filter (fun q => decide (start q = i ∧ stop q = stop p)) =
        (sort start stop items).filter fun q => decide (start q = i ∧ stop q = stop p) := by
      rw [← hN, filter_filter]
      refine filter_congr fun q _ => ?_
      rw [and_eq_left_iff_imp, decide_eq_true_eq, decide_eq_true_eq]
      omega
    rw [hclass, ← @filter_sort _ start stop items, ← hfilter, filter_cons, if_pos, head?_cons,
      head?_cons]
    · exact decide_eq_true ⟨hpstart, rfl⟩
    · intro x y hx hy
      rw [decide_eq_true_eq] at hx hy
      unfold Precedes
      omega

theorem filter_sort_ge (i : Nat) (h : ∀ p ∈ items, start p ≤ stop p) :
    (sort start stop items).filter (fun p => i ≤ start p) =
      inserts start stop items i ++
        ((sort start stop items).filter (fun p => start p = i ∧ i < stop p) ++
          (sort start stop items).filter fun p => i + 1 ≤ start p) := by
  have hpair := @pairwise_sort _ start stop items
  have hzero : (sort start stop items).filter (fun p => start p = i ∧ stop p = i) =
      inserts start stop items i := by
    refine filter_sort fun x y hx hy => ?_
    rw [decide_eq_true_eq] at hx hy
    unfold Precedes
    omega
  rw [← hzero, ← filter_or, ← filter_or]
  · refine filter_congr fun p hp => ?_
    have hle := h p (mem_sort.1 hp)
    rw [Bool.eq_iff_iff]
    simp only [or_eq_true, decide_eq_true_eq]
    omega
  · refine hpair.imp fun {x y} hxy => ?_
    simp only [or_eq_true, decide_eq_true_eq]
    unfold Precedes at hxy
    omega
  · simp only [or_eq_true, decide_eq_true_eq]
    omega
  · refine hpair.imp fun {x y} hxy => ?_
    simp only [decide_eq_true_eq]
    unfold Precedes at hxy
    omega
  · simp only [decide_eq_true_eq]
    omega

/-! ### Positions within an edit -/

theorem pieces_congr {skip' : Nat} (h : skip ≤ i) (h' : skip' ≤ i) (s : List χ) :
    pieces start stop items i skip s = pieces start stop items i skip' s := by
  induction s generalizing i with
  | nil => rw [pieces, pieces, if_neg (by omega), if_neg (by omega)]
  | cons c s ih =>
    rw [pieces, pieces, if_neg (by omega), if_neg (by omega), ih (by omega) (by omega)]

theorem pieces_skip (h : i ≤ skip) (s : List χ) (hs : skip ≤ i + s.length) :
    pieces start stop items i skip s = pieces start stop items skip skip (s.drop (skip - i)) := by
  induction s generalizing i with
  | nil =>
    have hi : i = skip := by
      rw [length_nil] at hs
      omega
    rw [hi, Nat.sub_self, drop_zero]
  | cons c s ih =>
    rcases Nat.eq_or_lt_of_le h with rfl | hlt
    · rw [Nat.sub_self, drop_zero]
    · rw [pieces, if_pos hlt, ih hlt (by rw [length_cons] at hs; omega),
        show skip - i = (skip - (i + 1)) + 1 from by omega, drop_succ_cons]

/-! ### The two ways -/

theorem run_filter_sort (h : ∀ p ∈ items, start p ≤ stop p ∧ stop p ≤ src.length) (i : Nat)
    (hi : i ≤ src.length) :
    run start stop src emit i ((sort start stop items).filter fun p => i ≤ start p) =
      (pieces start stop items i i (src.drop i)).flatMap (write emit) := by
  have hle : ∀ p ∈ sort start stop items, start p ≤ stop p := fun p hp => (h p (mem_sort.1 hp)).1
  have hins : ∀ p ∈ inserts start stop items i, start p = i ∧ stop p = i := fun p hp =>
    of_decide_eq_true (mem_filter.1 hp).2
  -- By induction on the positions left. The edit that reaches furthest leads to its end.
  induction hn : src.length - i using Nat.strong_induction_on generalizing i with
  | h n ih =>
    rw [filter_sort_ge i fun p hp => (h p hp).1, run_inserts emit hins]
    have hhead := @head?_filter_sort _ start stop items i
    have hlater : ∀ p ∈ (sort start stop items).filter (fun p => i + 1 ≤ start p), i + 1 ≤ start p :=
      fun p hp => of_decide_eq_true (mem_filter.1 hp).2
    cases hs : src.drop i with
    | nil =>
      -- The end: only insertions are left.
      have hend : src.length ≤ i := drop_eq_nil_iff.1 hs
      have hnone (q : ι → Prop) [DecidablePred q] (hq : ∀ p ∈ items, ¬ q p) :
          (sort start stop items).filter (fun p => q p) = [] :=
        filter_eq_nil_iff.2 fun p hp hqp => hq p (mem_sort.1 hp) (of_decide_eq_true hqp)
      rw [hnone (fun p => start p = i ∧ i < stop p) fun p hp hq => by have := h p hp; omega,
        hnone (fun p => i + 1 ≤ start p) fun p hp hq => by have := h p hp; omega, append_nil, run,
        hs, pieces, if_neg (lt_irrefl i), flatMap_map, append_nil]
      rfl
    | cons c s =>
      have hlt : i < src.length := by
        have hlen := congrArg length hs
        rw [length_drop, length_cons] at hlen
        omega
      have hdrop : src.drop (i + 1) = s := by rw [← tail_drop, hs, tail_cons]
      rw [pieces, if_neg (lt_irrefl i), flatMap_append, flatMap_map, ← hhead]
      cases hN : (sort start stop items).filter fun p => start p = i ∧ i < stop p with
      | nil =>
        have hnext := ih (src.length - (i + 1)) (by omega) (i + 1) hlt
          (fun p hp => of_decide_eq_true (mem_filter.1 hp).2) rfl
        rw [nil_append, run_cons emit hlater hs, hnext, hdrop,
          pieces_congr (le_refl _) (Nat.le_succ i)]
        rfl
      | cons p ps =>
        have hp := hN ▸ mem_cons_self
        rw [mem_filter, mem_sort, decide_eq_true_eq] at hp
        obtain ⟨hpmem, hpi, hpstop⟩ := hp
        have hplen := (h p hpmem).2
        -- The other edits that begin here begin before its end.
        have hrest : run start stop src emit (stop p)
              (ps ++ (sort start stop items).filter fun p => i + 1 ≤ start p) =
            run start stop src emit (stop p)
              ((sort start stop items).filter fun q => stop p ≤ start q) := by
          have hall := filter_sort_ge i fun p hp => (h p hp).1
          rw [hN] at hall
          have hskip := @run_skip _ _ start stop src emit (inserts start stop items i) (stop p)
            fun q hq => (hins q hq).1 ▸ hpstop
          rw [run_filter emit hle (le_refl _), ← run_filter emit hle (le_of_lt hpstop), hall,
            hskip, cons_append, run, if_pos (hpi ▸ hpstop)]
        have hnext := ih (src.length - stop p) (by omega) (stop p) hplen
          (fun p hp => of_decide_eq_true (mem_filter.1 hp).2) rfl
        have hslen : s.length = src.length - (i + 1) := by rw [← hdrop, length_drop]
        rw [head?_cons, cons_append, run, hpi, if_neg (lt_irrefl i), drop_take_self, hrest,
          hnext, flatMap_cons, pieces_skip (by omega) s (by omega), ← hdrop, drop_drop,
          show i + 1 + (stop p - (i + 1)) = stop p from by omega]
        rfl

theorem splice_choose_sort (h : ∀ p ∈ items, start p ≤ stop p ∧ stop p ≤ src.length) :
    splice start stop src emit 0 (choose start stop 0 (sort start stop items)) =
      (pieces start stop items 0 0 src).flatMap (write emit) := by
  have hall : ∀ p ∈ sort start stop items, start p ≤ stop p ∧ stop p ≤ src.length := fun p hp =>
    h p (mem_sort.1 hp)
  rw [splice_choose emit hall, ← run_filter emit (fun p hp => (hall p hp).1) (le_refl 0),
    run_filter_sort emit h 0 (Nat.zero_le _), drop_zero]

/-! ## Edits moved along -/

theorem pieces_map {start' stop' : κ → Nat} {f : ι → κ} {a : Nat}
    (h : ∀ p ∈ items, start p = start' (f p) + a ∧ stop p = stop' (f p) + a) (i skip : Nat)
    (s : List χ) : pieces start' stop' (items.map f) i skip s =
      (pieces start stop items (i + a) (skip + a) s).map (Sum.map f id) := by
  have hins (i : Nat) : inserts start' stop' (items.map f) i =
      (inserts start stop items (i + a)).map f := by
    rw [inserts, filter_map]
    refine congrArg (map f) (filter_congr fun p hp => ?_)
    obtain ⟨h1, h2⟩ := h p hp
    rw [Function.comp_apply, decide_eq_decide]
    omega
  have houter (i : Nat) : outer? start' stop' (items.map f) i =
      (outer? start stop items (i + a)).map f := by
    rw [outer?, ← head?_filter, filter_map, head?_map, outer?, ← head?_filter]
    refine congrArg (Option.map f ·.head?) (filter_congr fun p hp => ?_)
    obtain ⟨h1, h2⟩ := h p hp
    rw [Function.comp_apply, decide_eq_decide, forall_mem_map]
    refine and_congr (by omega) (and_congr (by omega) (forall₂_congr fun q hq => ?_))
    obtain ⟨h3, h4⟩ := h q hq
    omega
  induction s generalizing i skip with
  | nil =>
    rw [pieces, pieces, hins]
    by_cases hi : i < skip
    · rw [if_pos hi, if_pos (by omega), map_nil]
    · rw [if_neg hi, if_neg (by omega), map_map, map_map]
      rfl
  | cons c s ih =>
    rw [pieces, pieces, hins, houter]
    by_cases hi : i < skip
    · rw [if_pos hi, if_pos (by omega), ih, Nat.add_right_comm]
    rw [if_neg hi, if_neg (by omega), map_append, map_map, map_map]
    cases hp : outer? start stop items (i + a) with
    | none =>
      rw [ih, Nat.add_right_comm]
      rfl
    | some p =>
      obtain ⟨-, h2⟩ := h p (mem_of_find?_eq_some hp)
      rw [map_cons, h2, Nat.add_right_comm, ← ih]
      rfl

theorem flatMap_write_map {f : ι → κ} (emit' : κ → List χ) (l : List (ι ⊕ χ)) :
    (l.map (Sum.map f id)).flatMap (write emit') = l.flatMap (write fun p => emit' (f p)) := by
  rw [flatMap_map]
  refine flatMap_congr fun x _ => ?_
  cases x <;> rfl

/-! ## Which edits are made -/

/-- Any two of the edits are apart, or one lies within the other. -/
def Laminar (start stop : ι → Nat) (items : List ι) : Prop :=
  ∀ p ∈ items, ∀ q ∈ items, stop p ≤ start q ∨ stop q ≤ start p ∨
    start q ≤ start p ∧ stop p ≤ stop q ∨ start p ≤ start q ∧ stop q ≤ stop p

/-- The edit `q` hides `p`: `p` lies within it, other than as an insertion at its edge, and
    if their spans are the same, `q` comes first. -/
def Hides (start stop : ι → Nat) (items : List ι) (q p : ι) : Prop :=
  start q < stop q ∧ start q ≤ start p ∧ stop p ≤ stop q ∧
    ¬ (start p = stop p ∧ (start p = start q ∨ start p = stop q)) ∧
    (start q < start p ∨ stop p < stop q ∨ [q, p].Sublist items)

/-- The edits made. -/
def printed (start stop : ι → Nat) (items : List ι) (i skip : Nat) (s : List χ) : List ι :=
  (pieces start stop items i skip s).filterMap Sum.getLeft?

/-- The edits made do not depend on what is copied: here it is `none`. -/
theorem printed_eq_filterMap (s : List χ) (i skip : Nat) : printed start stop items i skip s =
      ((pieces start stop items i skip (replicate s.length none)).flatMap
        (write fun p => [some p])).filterMap id := by
  have hins (l : List ι) : (l.map Sum.inl).filterMap (Sum.getLeft? : ι ⊕ χ → Option ι) =
      ((l.map Sum.inl).flatMap (write fun p => [some p])).filterMap id := by
    induction l with
    | nil => rfl
    | cons p l ih => exact congrArg (p :: ·) ih
  rw [printed]
  induction s generalizing i skip with
  | nil =>
    rw [length_nil, replicate_zero, pieces, pieces]
    split
    · rfl
    · exact hins _
  | cons c s ih =>
    rw [length_cons, replicate_succ, pieces, pieces]
    split
    · exact ih _ _
    · rw [filterMap_append, flatMap_append, filterMap_append, ← hins]
      cases outer? start stop items i with
      | none => exact congrArg (_ ++ ·) (ih _ _)
      | some p => exact congrArg (_ ++ p :: ·) (ih _ _)

theorem filterMap_run (n cursor : Nat) (ps : List ι) :
    (run start stop (replicate n none) (fun p => [some p]) cursor ps).filterMap id =
      choose start stop cursor ps := by
  induction ps generalizing cursor with
  | nil => simp [run, choose]
  | cons p ps ih =>
    rw [run, choose]
    split
    · exact ih cursor
    · simpa using ih (stop p)

theorem printed_eq_choose
    (h : ∀ p ∈ items, i ≤ start p ∧ start p ≤ stop p ∧ stop p ≤ i + s.length) :
    printed start stop items i i s = choose start stop i (sort start stop items) := by
  have hsort : ∀ p ∈ sort start stop items, start p ≤ stop p := fun p hp => (h p (mem_sort.1 hp)).2.1
  have hrun := run_filter_sort (fun p => [some p])
    (fun p hp => by rw [length_replicate]; exact (h p hp).2) i
    (by simp : i ≤ (replicate (i + s.length) (none : Option ι)).length)
  rw [run_filter _ hsort (le_refl i), drop_replicate, Nat.add_sub_cancel_left] at hrun
  rw [printed_eq_filterMap, ← hrun, filterMap_run]

theorem choose_sublist (cursor : Nat) (ps : List ι) : (choose start stop cursor ps).Sublist ps := by
  induction ps generalizing cursor with
  | nil => exact nil_sublist _
  | cons p ps ih =>
    rw [choose]
    split
    · exact (ih cursor).cons p
    · exact (ih _).cons_cons p

/-- Of a laminar list that is sorted, those are chosen that no other one hides. -/
theorem mem_choose (hsorted : ps.Pairwise (Precedes start stop)) (hlam : Laminar start stop ps)
    (hnodup : ps.Nodup) (hle : ∀ p ∈ ps, start p ≤ stop p) (cursor : Nat) (p : ι) :
    p ∈ choose start stop cursor ps ↔ p ∈ ps ∧ cursor ≤ start p ∧
      ∀ q ∈ ps, cursor ≤ start q → ¬ Hides start stop ps q p := by
  induction ps generalizing cursor with
  | nil => simp [choose]
  | cons r ps ih =>
    rw [pairwise_cons] at hsorted
    rw [nodup_cons] at hnodup
    rw [forall_mem_cons] at hle
    have hlam' : Laminar start stop ps := fun p hp q hq =>
      hlam p (.tail _ hp) q (.tail _ hq)
    have hhides (q : ι) (hq : q ∈ ps) : Hides start stop (r :: ps) q p ↔ Hides start stop ps q p := by
      have hpair : [q, p].Sublist (r :: ps) ↔ [q, p].Sublist ps := by
        rw [sublist_cons_iff]
        refine or_iff_left fun ⟨l, hl, _⟩ => hnodup.1 ?_
        rwa [← (cons.inj hl).1]
      rw [Hides, Hides, hpair]
    have hlast (q : ι) : ¬ [q, r].Sublist (r :: ps) := fun h => by
      rcases sublist_cons_iff.1 h with h | ⟨l, hl, h⟩
      · exact hnodup.1 (h.subset (.tail _ (.head _)))
      · rw [← (cons.inj hl).2] at h
        exact hnodup.1 (singleton_sublist.1 h)
    rw [choose]
    split
    · grind
    next hge =>
    rw [mem_cons, ih hsorted.2 hlam' hnodup.2 hle.2]
    constructor
    · rintro (rfl | ⟨hp, hpr, hno⟩)
      · refine ⟨.head _, not_lt.1 hge, fun q hq _ hhides => ?_⟩
        have hpre : q = p ∨ Precedes start stop p q := (mem_cons.1 hq).imp_right (hsorted.1 q)
        obtain ⟨h1, h2, h3, h4, h5⟩ := hhides
        have h5 : start q < start p ∨ stop p < stop q :=
          h5.imp_right fun h5 => h5.resolve_right (hlast q)
        rcases hpre with rfl | hpre
        · omega
        · unfold Precedes at hpre
          omega
      · have hplace := hle.2 p hp
        refine ⟨.tail _ hp, by omega, fun q hq hqc hh => ?_⟩
        rcases mem_cons.1 hq with rfl | hq
        · obtain ⟨h1, h2, h3, h4, -⟩ := hh
          omega
        by_cases hqr : stop r ≤ start q
        · exact hno q hq hqr ((hhides q hq).1 hh)
        · have hrq := hlam r (.head _) q (.tail _ hq)
          have hpre := hsorted.1 q hq
          obtain ⟨h1, h2, h3, h4, -⟩ := hh
          unfold Precedes at hpre
          omega
    · rintro ⟨hp, hc, hno⟩
      refine (mem_cons.1 hp).imp_right fun hp => ?_
      by_cases hpr : stop r ≤ start p
      · exact ⟨hp, hpr, fun q hq hqr hh =>
          hno q (.tail _ hq) (by omega) ((hhides q hq).2 hh)⟩
      have hrp := hlam r (.head _) p (.tail _ hp)
      have hpre := hsorted.1 p hp
      unfold Precedes at hpre
      exact absurd ⟨by omega, by omega, by omega, by omega,
        .inr (.inr ((singleton_sublist.2 hp).cons_cons r))⟩
        (hno r (.head _) (not_lt.1 hge))

theorem pair_sublist_sort {p q : ι} (hstart : start q = start p) (hstop : stop q = stop p) :
    [q, p].Sublist (sort start stop items) ↔ [q, p].Sublist items := by
  let f (x : ι) : Bool := decide (start x = start p ∧ stop x = stop p)
  have hsame : (sort start stop items).filter f = items.filter f := filter_sort fun x y hx hy => by
    rw [decide_eq_true_eq] at hx hy
    unfold Precedes
    omega
  have hpair : [q, p].filter f = [q, p] := by simp [f, hstart, hstop]
  constructor
  · intro h
    have := h.filter f
    rw [hpair, hsame] at this
    exact this.trans filter_sublist
  · intro h
    have := h.filter f
    rw [hpair, ← hsame] at this
    exact this.trans filter_sublist

section Range

variable (h : ∀ p ∈ items, i ≤ start p ∧ start p ≤ stop p ∧ stop p ≤ i + s.length)

include h

theorem mem_printed_iff (hlam : Laminar start stop items) (hnodup : items.Nodup) (p : ι) :
    p ∈ printed start stop items i i s ↔
      p ∈ items ∧ ∀ q ∈ items, ¬ Hides start stop items q p := by
  have hhides (q : ι) : Hides start stop (sort start stop items) q p ↔ Hides start stop items q p := by
    by_cases hspan : start q = start p ∧ stop q = stop p
    · rw [Hides, Hides, pair_sublist_sort hspan.1 hspan.2]
    · unfold Hides
      grind
  rw [printed_eq_choose h, mem_choose pairwise_sort
    (fun p hp q hq => hlam p (mem_sort.1 hp) q (mem_sort.1 hq))
    ((perm_insertionSort _ _).nodup_iff.2 hnodup) fun p hp => (h p (mem_sort.1 hp)).2.1]
  simp only [mem_sort, hhides]
  exact ⟨fun hp => ⟨hp.1, fun q hq => hp.2.2 q hq (h q hq).1⟩,
    fun hp => ⟨hp.1, (h p hp.1).1, fun q hq _ => hp.2 q hq⟩⟩

theorem nodup_printed (hnodup : items.Nodup) : (printed start stop items i i s).Nodup := by
  rw [printed_eq_choose h]
  exact ((perm_insertionSort _ _).nodup_iff.2 hnodup).sublist (choose_sublist i _)

end Range

theorem outer?_spec (h : outer? start stop items i = some p) :
    p ∈ items ∧ start p = i ∧ i < stop p ∧ ∀ q ∈ items, start q = i → stop q ≤ stop p := by
  have hp := @find?_some _ (fun p => decide (start p = i ∧ i < stop p ∧
    ∀ q ∈ items, start q = i → stop q ≤ stop p)) _ _ h
  exact ⟨mem_of_find?_eq_some h, of_decide_eq_true hp⟩

theorem mem_of_mem_pieces {x : ι ⊕ χ}
    (h : x ∈ pieces start stop items i skip s) : Sum.elim (· ∈ items) (· ∈ s) x := by
  have hins {i : Nat} {s : List χ} (hx : x ∈ (inserts start stop items i).map Sum.inl) :
      Sum.elim (· ∈ items) (· ∈ s) x := by
    obtain ⟨q, hq, rfl⟩ := mem_map.1 hx
    exact (mem_filter.1 hq).1
  have hcons {c : χ} {s : List χ} (hx : Sum.elim (· ∈ items) (· ∈ s) x) :
      Sum.elim (· ∈ items) (· ∈ c :: s) x := by
    cases x with
    | inl p => exact hx
    | inr d => exact .tail _ hx
  induction s generalizing i skip with
  | nil =>
    rw [pieces] at h
    split at h
    · cases h
    · exact hins h
  | cons c s ih =>
    rw [pieces] at h
    split at h
    · exact hcons (ih h)
    rcases mem_append.1 h with hx | hx
    · exact hins hx
    cases houter : outer? start stop items i with
    | none =>
      rw [houter] at hx
      rcases mem_cons.1 hx with rfl | hx
      · exact .head _
      · exact hcons (ih hx)
    | some q =>
      rw [houter] at hx
      rcases mem_cons.1 hx with rfl | hx
      · exact (outer?_spec houter).1
      · exact hcons (ih hx)

/-! ## Outside all edits -/

/-- The elements, from position `i` on, that lie in no edit. -/
def outside (start stop : ι → Nat) (items : List ι) : Nat → List χ → List χ
  | _, [] => []
  | i, c :: s =>
    if ∃ p ∈ items, start p ≤ i ∧ i < stop p then outside start stop items (i + 1) s
    else c :: outside start stop items (i + 1) s

theorem outside_sublist (h : ∀ k, i ≤ k → k < skip → ∃ p ∈ items, start p ≤ k ∧ k < stop p) :
    (outside start stop items i s).Sublist
      ((pieces start stop items i skip s).flatMap (write emit)) := by
  induction s generalizing i skip with
  | nil => exact nil_sublist _
  | cons c s ih =>
    rw [outside, pieces]
    by_cases hi : i < skip
    · rw [if_pos hi, if_pos (h i (le_refl i) hi)]
      exact ih fun k hk => h k (by omega)
    rw [if_neg hi, flatMap_append]
    refine List.Sublist.trans ?_ (sublist_append_right _ _)
    cases houter : outer? start stop items i with
    | none =>
      have hrest : (outside start stop items (i + 1) s).Sublist
          ((pieces start stop items (i + 1) skip s).flatMap (write emit)) :=
        ih fun k hk hlt => absurd hlt (by omega)
      split
      · exact hrest.trans (sublist_append_right _ _)
      · exact hrest.cons_cons c
    | some p =>
      obtain ⟨hp, hpi, hlt, -⟩ := outer?_spec houter
      rw [if_pos ⟨p, hp, le_of_eq hpi, hlt⟩]
      exact (ih fun k hk hlt' => ⟨p, hp, by omega, hlt'⟩).trans (sublist_append_right _ _)

theorem mem_outside {k : Nat} {c : χ} (hk : s[k]? = some c)
    (h : ∀ p ∈ items, ¬ (start p ≤ i + k ∧ i + k < stop p)) : c ∈ outside start stop items i s := by
  induction s generalizing i k with
  | nil => cases hk
  | cons d s ih =>
    rw [outside]
    cases k with
    | zero =>
      obtain rfl : d = c := Option.some.inj hk
      rw [if_neg fun ⟨p, hp, hcover⟩ => h p hp hcover]
      exact .head _
    | succ k =>
      have hrest : c ∈ outside start stop items (i + 1) s := ih hk fun p hp hcover => h p hp (by omega)
      split
      · exact hrest
      · exact .tail _ hrest

/-! ## Where elements come from

What splicing puts out can be cut into pieces, each of which comes from a position: an element that
is copied from its own, and what an edit puts out from the beginning of the edit. -/

variable {ι κ χ : Type*} (start stop : ι → Nat) (src : List χ) (emit : ι → List χ)

/-! ### Pieces -/

/-- Elements that are copied, each with its position, from `s` on. -/
def singles : Nat → List χ → List (Nat × List χ)
  | _, [] => []
  | s, c :: l => (s, [c]) :: singles (s + 1) l

/-- What `splice` puts out, in pieces. -/
def traced : Nat → List ι → List (Nat × List χ)
  | cursor, [] => singles cursor (src.drop cursor)
  | cursor, p :: ps =>
    if start p < cursor ∨ src.length < stop p ∨ stop p < start p then traced cursor ps
    else singles cursor ((src.take (start p)).drop cursor) ++ (start p, emit p) :: traced (stop p) ps

/-- The text of the pieces. -/
def text (pieces : List (Nat × List χ)) : List χ := pieces.flatMap Prod.snd

@[simp] theorem text_nil : text ([] : List (Nat × List χ)) = [] := rfl

@[simp] theorem text_cons (x : Nat × List χ) (pieces : List (Nat × List χ)) :
    text (x :: pieces) = x.2 ++ text pieces := flatMap_cons

@[simp] theorem text_append (l m : List (Nat × List χ)) : text (l ++ m) = text l ++ text m :=
  flatMap_append

@[simp] theorem text_singles (s : Nat) (l : List χ) : text (singles s l) = l := by
  induction l generalizing s with
  | nil => rfl
  | cons c l ih =>
    rw [singles, text_cons, ih]
    rfl

theorem singles_append (s : Nat) (l m : List χ) :
    singles s (l ++ m) = singles s l ++ singles (s + l.length) m := by
  induction l generalizing s with
  | nil => rfl
  | cons c l ih =>
    rw [cons_append, singles, singles, ih, Nat.add_assoc, Nat.add_comm 1]
    rfl

theorem text_traced (cursor : Nat) (ps : List ι) :
    text (traced start stop src emit cursor ps) = splice start stop src emit cursor ps := by
  induction ps generalizing cursor with
  | nil => rw [traced, splice, text_singles]
  | cons p ps ih =>
    rw [traced, splice]
    split
    · exact ih cursor
    · rw [text_append, text_cons, text_singles, ih, append_assoc]

/-! ### Origins -/

/-- The place `g` of what the pieces are together comes from `o`: it is in a piece that
    does, or at its beginning. The end comes from `n`. -/
def Origin (n : Nat) : List (Nat × List χ) → Nat → Nat → Prop
  | [], g, o => g = 0 ∧ o = n
  | x :: pieces, g, o =>
    x.1 = o ∧ (g = 0 ∨ g < x.2.length) ∨ x.2.length ≤ g ∧ Origin n pieces (g - x.2.length) o

variable {start stop src emit} {n : Nat}

theorem Origin.append {l m : List (Nat × List χ)} {g o : Nat} (h : Origin n m g o) :
    Origin n (l ++ m) ((text l).length + g) o := by
  induction l with
  | nil =>
    rw [text_nil, length_nil, Nat.zero_add]
    exact h
  | cons x l ih =>
    refine .inr ⟨?_, ?_⟩
    · rw [text_cons, length_append]
      omega
    · rw [text_cons, length_append, Nat.add_assoc, Nat.add_sub_cancel_left]
      exact ih

theorem Origin.append_right {m g o : Nat} {l rest : List (Nat × List χ)} (h : Origin n l g o)
    (hrest : Origin m rest 0 n) : Origin m (l ++ rest) g o := by
  induction l generalizing g with
  | nil =>
    rw [h.1, h.2]
    exact hrest
  | cons x l ih => exact h.imp_right fun ⟨hle, h⟩ => ⟨hle, ih h⟩

theorem Origin.singles {s j : Nat} {l : List χ} (hj : j ≤ l.length)
    {rest : List (Nat × List χ)} (hrest : Origin n rest 0 (s + l.length)) :
    Origin n (singles s l ++ rest) j (s + j) := by
  induction l generalizing s j with
  | nil =>
    rw [length_nil, Nat.le_zero] at hj
    rw [hj]
    exact hrest
  | cons c l ih =>
    cases j with
    | zero => exact .inl ⟨rfl, .inl rfl⟩
    | succ j =>
      rw [length_cons] at hj hrest
      have hnext := @ih (s + 1) j (by omega) (by rwa [Nat.add_assoc, Nat.add_comm 1])
      rw [Nat.add_assoc, Nat.add_comm 1] at hnext
      exact .inr ⟨Nat.succ_le_succ (Nat.zero_le j), hnext⟩

theorem Origin.head (x : Nat × List χ) (pieces : List (Nat × List χ)) :
    Origin n (x :: pieces) 0 x.1 := .inl ⟨rfl, .inl rfl⟩

/-! ### Edits that follow one another -/

variable (start stop) in
/-- Edits from position `i` on, in order, each after the one before, up to `n`. -/
def Follow (n : Nat) : Nat → List ι → Prop
  | i, [] => i ≤ n
  | i, p :: ps => i ≤ start p ∧ start p ≤ stop p ∧ Follow n (stop p) ps

instance decidableFollow : (i : Nat) → (ps : List ι) → Decidable (Follow start stop n i ps)
  | i, [] => inferInstanceAs (Decidable (i ≤ n))
  | i, p :: ps =>
    have := decidableFollow (stop p) ps
    inferInstanceAs (Decidable (i ≤ start p ∧ start p ≤ stop p ∧ Follow start stop n (stop p) ps))

variable {i : Nat} {ps : List ι}

theorem Follow.le (h : Follow start stop n i ps) : i ≤ n := by
  induction ps generalizing i with
  | nil => exact h
  | cons p ps ih =>
    obtain ⟨hi, hp, hps⟩ := h
    exact le_trans hi (le_trans hp (ih hps))

theorem Follow.mono {m : Nat} (h : Follow start stop n i ps) (hnm : n ≤ m) :
    Follow start stop m i ps := by
  induction ps generalizing i with
  | nil => exact le_trans h hnm
  | cons p ps ih => exact ⟨h.1, h.2.1, ih h.2.2⟩

theorem Follow.forall_le (h : Follow start stop n i ps) :
    ∀ p ∈ ps, i ≤ start p ∧ start p ≤ stop p := by
  induction ps generalizing i with
  | nil => exact nofun
  | cons p ps ih =>
    obtain ⟨hi, hp, hps⟩ := h
    refine forall_mem_cons.2 ⟨⟨hi, hp⟩, fun q hq => ?_⟩
    obtain ⟨hq, hqq⟩ := ih hps q hq
    exact ⟨le_trans hi (le_trans hp hq), hqq⟩

theorem Follow.map {f : κ → ι} {ks : List κ} (h : Follow start stop n i (ks.map f)) :
    Follow (start ∘ f) (stop ∘ f) n i ks := by
  induction ks generalizing i with
  | nil => exact h
  | cons k ks ih => exact ⟨h.1, h.2.1, ih h.2.2⟩

theorem Follow.pairwise (h : Follow start stop n i ps) : ps.Pairwise (Precedes start stop) := by
  induction ps generalizing i with
  | nil => exact .nil
  | cons p ps ih =>
    refine pairwise_cons.2 ⟨fun q hq => ?_, ih h.2.2⟩
    have hp := h.2.1
    have hq := h.2.2.forall_le q hq
    -- An edit that begins where `p` does comes after `p` only if `p` is an insertion.
    unfold Precedes
    omega

theorem Follow.choose_eq (h : Follow start stop n i ps) : choose start stop i ps = ps := by
  induction ps generalizing i with
  | nil => rfl
  | cons p ps ih => rw [choose, if_neg (not_lt.2 h.1), ih h.2.2]

theorem Follow.choose_sort (h : Follow start stop n i ps) :
    choose start stop i (sort start stop ps) = ps := by
  rw [sort, h.pairwise.insertionSort_eq, h.choose_eq]

theorem Follow.traced_cons {p : ι}
    (h : Follow start stop src.length i (p :: ps)) : traced start stop src emit i (p :: ps) =
      Splice.singles i ((src.take (start p)).drop i) ++
        (start p, emit p) :: traced start stop src emit (stop p) ps := by
  obtain ⟨hi, hp, hps⟩ := h
  have hle := hps.le
  rw [traced, if_neg (by omega)]

theorem Follow.traced_append (h : Follow start stop src.length i ps)
    (more : List χ) : traced start stop (src ++ more) emit i ps =
      traced start stop src emit i ps ++ Splice.singles src.length more := by
  induction ps generalizing i with
  | nil =>
    have hi : i ≤ src.length := h
    rw [traced, traced, drop_append_of_le_length hi, singles_append, length_drop,
      Nat.add_sub_cancel' hi]
  | cons p ps ih =>
    obtain ⟨hi, hp, hps⟩ := h
    have hle := hps.le
    rw [Follow.traced_cons ⟨hi, hp, hps⟩, traced, if_neg (by rw [length_append]; omega), ih hps,
      take_append_of_le_length (by omega), append_assoc, cons_append]

theorem traced_map {f : κ → ι} {emit' : κ → List χ} {ks : List κ}
    (h : ∀ k ∈ ks, emit' k = emit (f k)) (i : Nat) :
    traced (start ∘ f) (stop ∘ f) src emit' i ks = traced start stop src emit i (ks.map f) := by
  induction ks generalizing i with
  | nil => rfl
  | cons k ks ih =>
    rw [forall_mem_cons] at h
    rw [map_cons, traced, traced, ih h.2, ih h.2, h.1]
    rfl

end ZeroProxy.Splice
