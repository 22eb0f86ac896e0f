import ZeroProxy.Rewriter.Resolve

/-!
# What applying patches gives

The patches of a script are nested: a marker copies portions of the source, with the patches
in them. Rendering is said here at the positions of the source, with nothing shifted: the
patches that no other patch hides are put out, in order, and between them the source; a form
renders each portion that it copies in the same way, with the patches in that portion.
-/

namespace ZeroProxy.Rewriter.Render

open Bool List Option Splice Text

/-! ## Patches -/

/-- A patch, with its mark. -/
structure MarkPatch where
  start : Nat
  stop : Nat
  mark : Mark
  deriving DecidableEq

namespace MarkPatch

def span (p : MarkPatch) : Span := ⟨p.start, p.stop⟩

/-- The patch as it is written, with positions counted from `a`. -/
def text (a : Nat) (p : MarkPatch) : TextPatch :=
  ⟨p.start - a, p.stop - a, (p.mark.shift a).encode⟩

def encode (p : MarkPatch) : TextPatch := ⟨p.start, p.stop, p.mark.encode⟩

theorem text_zero (p : MarkPatch) : p.text 0 = p.encode := by
  rw [text, Mark.shift_zero]
  rfl

/-- The spans that stand for `__zp_oc` in what the patch copies. -/
def heads (p : MarkPatch) : List Span :=
  p.mark.portions.filterMap fun r => r.head.map fun h => ⟨r.start, h⟩

/-- All spans of the patch that others have to be apart from, or nested with. -/
def spans (p : MarkPatch) : List Span := p.span :: p.heads

end MarkPatch

open MarkPatch

/-- The part of the source from `s` to `e`. -/
def slice (source : Text) (s e : Nat) : Text := (source.take e).drop s

/-- The patches from `s` to `e`, other than the one with the index `k`, `p`, and insertions
    at its edges. -/
def inner (F : List MarkPatch) (p : MarkPatch) (k s e : Nat) : List MarkPatch :=
  (F.zipIdx.filter fun (q, j) => s ≤ q.start && q.stop ≤ e && j != k &&
    !(q.start == q.stop && (q.start == p.start || q.start == p.stop))).map Prod.fst

def headPatch (r : Portion) : List MarkPatch :=
  r.head.toList.map fun h => ⟨r.start, h, .text (lit "__zp_oc")⟩

/-- The patches that are rendered with a portion that `p` copies. -/
def copied (F : List MarkPatch) (p : MarkPatch) (k : Nat) (r : Portion) : List MarkPatch :=
  headPatch r ++ inner F p k r.start r.stop

section Reference

variable (quote : Text → Text) (source : Text)

/-- The rendering of the source from `a` to `b`, up to `fuel` levels of forms in forms. -/
def renderFuel : Nat → List MarkPatch → Nat → Nat → Text
  | 0, _, a, b => slice source a b
  | fuel + 1, F, a, b =>
    (pieces (fun p : MarkPatch × Nat => p.1.start) (fun p => p.1.stop) F.zipIdx a a
      (slice source a b)).flatMap <| write fun p =>
        p.1.mark.render quote (slice source a p.1.start) fun r =>
          renderFuel fuel (copied F p.1 p.2 r) r.start r.stop

/-- The rendering of the source from `a` to `b`. -/
def render (F : List MarkPatch) (a b : Nat) : Text := renderFuel quote source (F.length + 1) F a b

end Reference

/-! ## The patches of a portion -/

section Copied

variable {F : List MarkPatch} {p : MarkPatch} {k : Nat}

theorem mem_inner {s e : Nat} {q : MarkPatch} (h : q ∈ inner F p k s e) :
    q ∈ F ∧ s ≤ q.start ∧ q.stop ≤ e := by
  obtain ⟨x, hx, rfl⟩ := mem_map.1 h
  obtain ⟨hmem, hcond⟩ := mem_filter.1 hx
  simp only [and_eq_true, decide_eq_true_eq] at hcond
  exact ⟨fst_mem_of_mem_zipIdx hmem, hcond.1.1.1, hcond.1.1.2⟩

theorem inner_sublist (h : F[k]? = some p) : ∃ l r, F = l ++ p :: r ∧
    ∀ s e, (inner F p k s e).Sublist (l ++ r) := by
  obtain ⟨hk, hp⟩ := List.getElem?_eq_some_iff.1 h
  have hF : F = F.take k ++ p :: F.drop (k + 1) := by
    rw [← hp, ← drop_eq_getElem_cons hk, take_append_drop]
  refine ⟨F.take k, F.drop (k + 1), hF, fun s e => ?_⟩
  have hlen : (F.take k).length = k := by
    rw [length_take]
    omega
  have hzip : F.zipIdx = (F.take k).zipIdx ++ (p, k) :: (F.drop (k + 1)).zipIdx (k + 1) := by
    conv_lhs => rw [hF]
    rw [zipIdx_append, zipIdx_cons, hlen, zero_add]
  have hfst (l : List MarkPatch) (n : Nat) (c : MarkPatch × Nat → Bool) :
      (((l.zipIdx n).filter c).map Prod.fst).Sublist l := by
    have hsub := (@filter_sublist _ c (l.zipIdx n)).map Prod.fst
    rwa [zipIdx_map_fst] at hsub
  rw [inner, hzip, filter_append, map_append, filter_cons, if_neg (by simp)]
  exact (hfst _ _ _).append (hfst _ _ _)

theorem mem_headPatch {r : Portion} {q : MarkPatch} (h : q ∈ headPatch r) :
    ∃ e ∈ r.head, q = ⟨r.start, e, .text (lit "__zp_oc")⟩ := by
  obtain ⟨e, he, rfl⟩ := mem_map.1 h
  exact ⟨e, mem_toList.1 he, rfl⟩

theorem countP_spans_copied (h : F[k]? = some p) {r : Portion} (hr : r ∈ p.mark.portions)
    (c : Span → Bool) : ((copied F p k r).flatMap spans).countP c +
      (if c p.span then 1 else 0) ≤ (F.flatMap spans).countP c := by
  obtain ⟨l, l', hF, hsub⟩ := inner_sublist h
  have hinner := @Sublist.countP_le _ c _ _ ((hsub r.start r.stop).flatMap spans)
  have hhead : ((headPatch r).flatMap spans).countP c ≤ p.heads.countP c := by
    cases hh : r.head with
    | none =>
      rw [headPatch, hh]
      exact Nat.zero_le _
    | some e =>
      have hmem : (⟨r.start, e⟩ : Span) ∈ p.heads := by
        rw [heads, mem_filterMap]
        exact ⟨r, hr, by rw [hh]; rfl⟩
      have hspans : (headPatch r).flatMap spans = [⟨r.start, e⟩] := by
        rw [headPatch, hh]
        rfl
      rw [hspans]
      exact (singleton_sublist.2 hmem).countP_le
  rw [copied, flatMap_append, countP_append]
  conv_rhs => rw [hF]
  rw [flatMap_append, flatMap_cons, countP_append, countP_append, spans, countP_cons]
  rw [flatMap_append, countP_append] at hinner
  omega

/-- The patches that copy something. -/
def copying (F : List MarkPatch) : Nat := F.countP fun p => !p.mark.portions.isEmpty

theorem copying_copied (h : F[k]? = some p) {r : Portion} (hr : r ∈ p.mark.portions) :
    copying (copied F p k r) < copying F := by
  obtain ⟨l, l', hF, hsub⟩ := inner_sublist h
  have hinner : copying (inner F p k r.start r.stop) ≤ copying (l ++ l') :=
    (hsub r.start r.stop).countP_le
  have hhead : copying (headPatch r) = 0 := countP_eq_zero.2 fun q hq => by
    obtain ⟨e, -, rfl⟩ := mem_headPatch hq
    exact Bool.false_ne_true
  have hp : (!p.mark.portions.isEmpty) = true := by simp [ne_nil_of_mem hr]
  conv_rhs => rw [hF]
  simp only [copying, copied, countP_append, countP_cons_of_pos, hp] at hinner hhead ⊢
  omega

variable (quote : Text → Text) (source : Text)

/-- One level of the rendering, given the texts of what the patches copy. -/
def level (text : MarkPatch × Nat → Portion → Text) (F : List MarkPatch) (a b : Nat) : Text :=
  (pieces (fun p : MarkPatch × Nat => p.1.start) (fun p => p.1.stop) F.zipIdx a a
    (slice source a b)).flatMap <| write fun p =>
      p.1.mark.render quote (slice source a p.1.start) (text p)

theorem level_congr {f g : MarkPatch × Nat → Portion → Text} (a b : Nat)
    (h : ∀ p k, F[k]? = some p → ∀ r ∈ p.mark.portions, f (p, k) r = g (p, k) r) :
    level quote source f F a b = level quote source g F a b := by
  refine flatMap_congr fun x hx => ?_
  cases x with
  | inr c => rfl
  | inl q => exact Mark.render_congr (h _ _ (mem_zipIdx_iff_getElem?.1 (mem_of_mem_pieces hx)))

theorem renderFuel_congr {n m : Nat} (hn : copying F < n) (hm : copying F < m) (a b : Nat) :
    renderFuel quote source n F a b = renderFuel quote source m F a b := by
  induction n generalizing m F a b with
  | zero => omega
  | succ n ih =>
    obtain ⟨m, rfl⟩ := Nat.exists_eq_succ_of_ne_zero (Nat.ne_zero_of_lt hm)
    refine level_congr quote source a b fun p k hp r hr => ?_
    have hlt := copying_copied hp hr
    exact ih (hlt.trans_le (Nat.le_of_lt_succ hn)) (hlt.trans_le (Nat.le_of_lt_succ hm)) _ _

/-- The levels of `render` are enough: it is a recursion into what the patches copy. -/
theorem render_eq (F : List MarkPatch) (a b : Nat) : render quote source F a b =
    level quote source (fun p r => render quote source (copied F p.1 p.2 r) r.start r.stop)
      F a b := by
  refine level_congr quote source a b fun p k hp r hr => ?_
  exact renderFuel_congr quote source ((copying_copied hp hr).trans_le countP_le_length)
    (Nat.lt_succ_of_le countP_le_length) _ _

end Copied

/-! ## Families -/

/-- The span lies inside the patch, and the position `k` inside the span. -/
def covers (p : MarkPatch) (k : Nat) (s : Span) : Bool :=
  p.span.contains s && s.start ≤ k && k < s.stop

/-- In the region there is a semicolon that, of what lies inside the patch, only the patch
    itself covers. -/
def HasSlot (source : Text) (F : List MarkPatch) (p : MarkPatch) (region : Span) : Prop :=
  ∃ k, region.start ≤ k ∧ k < region.stop ∧ source[k]? = some ';' ∧
    (F.flatMap spans).countP (covers p k) ≤ 1

/-- Patches from `a` to `b` that are well formed, and any two of which are apart, or one lies
    within the other. Positions have 32 bits. The heads of chains are spans like those of
    patches. The header of a loop has a place for its test. -/
structure Family (source : Text) (a b : Nat) where
  patches : List MarkPatch
  inside : ∀ p ∈ patches, a ≤ p.start ∧ p.start ≤ p.stop ∧ p.stop ≤ b
  short : ∀ p ∈ patches, p.stop < 4294967296
  laminar : Splice.Laminar Span.start Span.stop (patches.flatMap spans)
  wf : ∀ p ∈ patches, p.mark.Wf p.span
  slot : ∀ p ∈ patches, ∀ c region, p.mark = .forCap c region → HasSlot source patches p region

namespace Family

variable {source : Text} {a b : Nat}

/-- The patches that are rendered with a portion are a family again. -/
def copied (F : Family source a b) {p : MarkPatch} {k : Nat} (h : F.patches[k]? = some p)
    {r : Portion} (hr : r ∈ p.mark.portions) : Family source r.start r.stop where
  patches := Render.copied F.patches p k r
  inside q hq := by
    have hp := mem_of_getElem? h
    obtain ⟨-, hhead⟩ := Mark.portions_wf (F.wf p hp) r hr
    rcases mem_append.1 hq with hq | hq
    · obtain ⟨e, he, rfl⟩ := mem_headPatch hq
      obtain ⟨h1, h2⟩ := hhead e he
      exact ⟨Nat.le_refl _, Nat.le_of_lt h1, h2⟩
    · obtain ⟨hqF, h1, h2⟩ := mem_inner hq
      exact ⟨h1, (F.inside q hqF).2.1, h2⟩
  short q hq := by
    have hp := mem_of_getElem? h
    obtain ⟨⟨-, -, hstop⟩, hhead⟩ := Mark.portions_wf (F.wf p hp) r hr
    rcases mem_append.1 hq with hq | hq
    · obtain ⟨e, he, rfl⟩ := mem_headPatch hq
      exact Nat.lt_of_le_of_lt (Nat.le_trans (hhead e he).2 hstop) (F.short p hp)
    · exact F.short q (mem_inner hq).1
  laminar := by
    have hsub : ∀ s ∈ (Render.copied F.patches p k r).flatMap spans,
        s ∈ F.patches.flatMap spans := by
      intro s hs
      obtain ⟨q, hq, hsq⟩ := mem_flatMap.1 hs
      rcases mem_append.1 hq with hq | hq
      · obtain ⟨e, he, rfl⟩ := mem_headPatch hq
        obtain rfl : s = ⟨r.start, e⟩ := mem_singleton.1 hsq
        refine mem_flatMap.2 ⟨p, mem_of_getElem? h, mem_cons_of_mem _ ?_⟩
        rw [heads, mem_filterMap]
        exact ⟨r, hr, by rw [mem_def.1 he]; rfl⟩
      · exact mem_flatMap.2 ⟨q, (mem_inner hq).1, hsq⟩
    exact fun s hs t ht => F.laminar s (hsub s hs) t (hsub t ht)
  wf q hq := by
    rcases mem_append.1 hq with hq | hq
    · obtain ⟨e, -, rfl⟩ := mem_headPatch hq
      refine ⟨fun f hf => ?_, trivial⟩
      obtain rfl := mem_singleton.1 hf
      exact (by decide : sep ∉ lit "__zp_oc")
    · exact F.wf q (mem_inner hq).1
  slot q hq c region hmark := by
    rcases mem_append.1 hq with hq | hq
    · obtain ⟨e, -, rfl⟩ := mem_headPatch hq
      cases hmark
    · obtain ⟨i, h1, h2, h3, hcount⟩ := F.slot q (mem_inner hq).1 c region hmark
      have hle := countP_spans_copied h hr (covers q i)
      exact ⟨i, h1, h2, h3, by omega⟩

theorem not_covered (F : Family source a b) {p : MarkPatch} {k : Nat} (h : F.patches[k]? = some p)
    {c : Text} {region : Span} (hmark : p.mark = .forCap c region) :
    ∃ i, region.start ≤ i ∧ i < region.stop ∧ source[i]? = some ';' ∧
      ∀ q ∈ Render.copied F.patches p k (.ofSpan region), ¬ (q.start ≤ i ∧ i < q.stop) := by
  have hp := mem_of_getElem? h
  obtain ⟨i, h1, h2, h3, hcount⟩ := F.slot p hp c region hmark
  have hwithin : Within p.span region := by
    have hwf := (F.wf p hp).fields (.span region)
    rw [hmark] at hwf
    exact hwf (.tail _ (.head _))
  obtain ⟨hstart, -, hstop⟩ : p.start ≤ region.start ∧ _ ∧ region.stop ≤ p.stop := hwithin
  refine ⟨i, h1, h2, h3, fun q hq hcover => ?_⟩
  have hr : Portion.ofSpan region ∈ p.mark.portions := by
    rw [hmark]
    exact .head _
  -- The patch and `q` would both cover it.
  have hle := countP_spans_copied h hr (covers p i)
  have hself : covers p i p.span := by
    simp only [covers, Span.contains, and_eq_true, decide_eq_true_eq]
    simp only [MarkPatch.span]
    omega
  have hq' : covers p i q.span := by
    obtain ⟨hq1, -, hq2⟩ : region.start ≤ q.start ∧ _ ∧ q.stop ≤ region.stop :=
      (F.copied h hr).inside q hq
    simp only [covers, Span.contains, and_eq_true, decide_eq_true_eq]
    simp only [MarkPatch.span]
    omega
  have hpos : 0 < ((Render.copied F.patches p k (.ofSpan region)).flatMap MarkPatch.spans).countP
      (covers p i) :=
    countP_pos_iff.2 ⟨q.span, mem_flatMap.2 ⟨q, hq, .head _⟩, hq'⟩
  rw [if_pos hself] at hle
  omega

end Family

/-! ## Parts of the source -/

variable {source : Text} {a b : Nat}

theorem length_slice (hb : b ≤ source.length) : (slice source a b).length = b - a := by
  rw [slice, length_drop, length_take, min_eq_left hb]

theorem slice_slice {s e : Nat} (hs : a ≤ s) (hae : a ≤ e) (he : e ≤ b) :
    slice (slice source a b) (s - a) (e - a) = slice source s e := by
  rw [slice, slice, take_drop, drop_drop, take_take]
  congr 2 <;> omega

theorem take_slice {i : Nat} (ha : a ≤ i) (hi : i ≤ b) :
    (slice source a b).take (i - a) = slice source a i := by
  rw [slice, take_drop, take_take]
  congr 2
  omega

theorem getElem?_slice {i : Nat} (ha : a ≤ i) (hi : i < b) :
    (slice source a b)[i - a]? = source[i]? := by
  rw [slice, getElem?_drop, getElem?_take_of_lt (by omega), Nat.add_sub_cancel' ha]

theorem outside_sublist_renderFuel (quote : Text → Text) (n : Nat)
    (F : List MarkPatch) (a b : Nat) :
    (outside (fun p : MarkPatch × Nat => p.1.start) (fun p => p.1.stop) F.zipIdx a
      (slice source a b)).Sublist (renderFuel quote source (n + 1) F a b) := by
  exact outside_sublist _ fun i h1 h2 => absurd h2 (not_lt.2 h1)

theorem Family.semicolon_mem (F : Family source a b) {p : MarkPatch}
    {k : Nat} (h : F.patches[k]? = some p) {c : Text} {region : Span}
    (hmark : p.mark = .forCap c region) (quote : Text → Text) (n : Nat) :
    ';' ∈ renderFuel quote source n (Render.copied F.patches p k (.ofSpan region)) region.start
      region.stop := by
  obtain ⟨i, h1, h2, hi, hcover⟩ := F.not_covered h hmark
  have hslice := (@getElem?_slice source region.start region.stop i h1 h2).trans hi
  cases n with
  | zero => exact mem_of_getElem? hslice
  | succ n =>
    refine (outside_sublist_renderFuel quote n _ _ _).subset (mem_outside hslice ?_)
    intro q hq
    rw [Nat.add_sub_cancel' h1]
    exact hcover q.1 (fst_mem_of_mem_zipIdx hq)

theorem Mark.eq_forCap_of_shift {m : Mark} {c : Text} {r : Span}
    (h : m.shift a = .forCap c r) : ∃ s, m = .forCap c s ∧ r = shiftSpan a s := by
  cases m with
  | forCap c' s =>
    obtain ⟨rfl, rfl⟩ := Mark.forCap.inj h
    exact ⟨s, rfl, rfl⟩
  | _ => cases h

/-! ## Applying the written patches -/

section Apply

variable (L : Quoting) {source : Text} {a b : Nat}

theorem applyFuel_nil (n : Nat) (s : Text) : applyFuel L.quote n s [] = s := by
  cases n <;> rfl

theorem MarkPatch.shift_text {p : MarkPatch} (hp : p.mark.Wf p.span) (hlen : p.stop < 4294967296)
    {s : Nat} (ha : a ≤ p.start) (hs : a ≤ s) : (p.text a).shift (s - a) = p.text s := by
  have hmark : shiftMarkerPositions (p.mark.shift a).encode (s - a) = (p.mark.shift s).encode := by
    rw [Mark.shiftMarkerPositions_encode _ (hp.shift ha), Mark.shift_shift, Nat.add_sub_cancel' hs]
    exact lt_of_le_of_lt (Nat.sub_le _ _) hlen
  rw [TextPatch.shift, text]
  congr 1 <;> simp only <;> omega

theorem innerPatches_text (F : Family source a b) {p : MarkPatch} (hp : p ∈ F.patches)
    {k s e : Nat} (hs : a ≤ s) (he : a ≤ e) :
    innerPatches (F.patches.map (text a)) (p.text a) k (s - a) (e - a) =
      (inner F.patches p k s e).map (text s) := by
  obtain ⟨hpa, hple, -⟩ := F.inside p hp
  rw [innerPatches, inner, zipIdx_map, List.filter_map, List.map_map, List.map_map]
  have hfilter : F.patches.zipIdx.filter ((fun x : TextPatch × Nat => decide (s - a ≤ x.1.start) &&
        decide (x.1.stop ≤ e - a) && x.2 != k && !(x.1.start == x.1.stop &&
        (x.1.start == (p.text a).start || x.1.start == (p.text a).stop))) ∘ Prod.map (text a) id) =
      F.patches.zipIdx.filter fun x : MarkPatch × Nat => decide (s ≤ x.1.start) &&
        decide (x.1.stop ≤ e) && x.2 != k &&
        !(x.1.start == x.1.stop && (x.1.start == p.start || x.1.start == p.stop)) := by
    refine filter_congr fun x hx => ?_
    obtain ⟨hqa, hqle, -⟩ := F.inside x.1 (fst_mem_of_mem_zipIdx hx)
    rw [Bool.eq_iff_iff]
    simp only [Function.comp_apply, and_eq_true, decide_eq_true_eq, bne_iff_ne, not_eq_true',
      ← not_eq_true, or_eq_true, beq_iff_eq]
    simp only [Prod.map_fst, Prod.map_snd, id_eq, MarkPatch.text]
    omega
  refine (congrArg _ hfilter).trans (map_congr_left fun x hx => ?_)
  have hq := fst_mem_of_mem_zipIdx (mem_filter.1 hx).1
  obtain ⟨hqa, hqle, hqb⟩ := F.inside x.1 hq
  exact shift_text (F.wf x.1 hq) (F.short x.1 hq) hqa hs

variable (hb : b ≤ source.length) (F : Family source a b) {n : Nat}
  (ih : ∀ {s e : Nat} (G : Family source s e), e ≤ source.length →
    applyFuel L.quote n (slice source s e) (G.patches.map (text s)) =
      renderFuel L.quote source n G.patches s e)
  {p : MarkPatch} {k : Nat} (h : F.patches[k]? = some p)

include hb ih h

theorem text_patchEnv {r : Portion} (hr : r ∈ p.mark.portions) :
    (patchEnv (applyFuel L.quote n) (slice source a b) (F.patches.map (text a))
      (p.text a, k)).text (r.shift a) =
      renderFuel L.quote source n (copied F.patches p k r) r.start r.stop := by
  have hp := mem_of_getElem? h
  obtain ⟨hpa, -, hpb⟩ := F.inside p hp
  obtain ⟨⟨h1, h2, h3⟩, hhead⟩ := Mark.portions_wf (F.wf p hp) r hr
  simp only [MarkPatch.span] at h1 h2 h3
  have hinner := @innerPatches_text source a b F p hp k r.start r.stop (by omega) (by omega)
  have hslice := @slice_slice source a b r.start r.stop (by omega) (by omega) (by omega)
  have hlength := length_slice (a := a) hb
  have hG := ih (F.copied h hr) (by omega)
  change applyFuel L.quote n (slice source r.start r.stop)
    ((copied F.patches p k r).map (MarkPatch.text r.start)) = _ at hG
  rw [copied, map_append] at hG
  rw [slice] at hslice
  cases hh : r.head with
  | none =>
    have hout : ¬ (r.start - a ≥ r.stop - a ∨ r.stop - a > (slice source a b).length) := by omega
    rw [headPatch, hh, toList_none, map_nil, map_nil, nil_append] at hG
    simp only [Env.text, Portion.shift, hh, map_none, patchEnv, rewriteRangeOv,
      filter_none, rewriteRange, if_neg hout, hinner, hslice]
    split
    · next hempty =>
      rw [List.isEmpty_iff] at hempty
      rw [hempty, applyFuel_nil] at hG
      exact hG
    · exact hG
  | some e =>
    obtain ⟨h4, h5⟩ := hhead e hh
    have hin : ¬ r.stop - a > (slice source a b).length := by omega
    have hfilter : (some (r.start - a, e - a)).filter (fun o : Nat × Nat =>
        decide (r.start - a ≤ o.1) && decide (o.1 < o.2) && decide (o.2 ≤ r.stop - a)) =
        some (r.start - a, e - a) := by
      refine filter_eq_some_iff.2 ⟨rfl, ?_⟩
      simp only [and_eq_true, decide_eq_true_eq]
      omega
    have hpatch : (headPatch r).map (MarkPatch.text r.start) =
        [chainPatch (r.start - a) (r.start - a) (e - a)] := by
      have hsub : e - a - (r.start - a) = e - r.start := by omega
      rw [headPatch, hh, chainPatch, hsub]
      simp [MarkPatch.text, Mark.shift, Mark.encode]
    rw [hpatch] at hG
    simp only [Env.text, Portion.shift, hh, map_some, patchEnv, rewriteRangeOv, hfilter,
      if_neg hin, hinner, hslice]
    exact hG

theorem emitPatch_eq : emitPatch L.quote (applyFuel L.quote n) (slice source a b)
      (F.patches.map (text a)) (p.text a, k) =
    p.mark.render L.quote (slice source a p.start) fun r =>
      renderFuel L.quote source n (copied F.patches p k r) r.start r.stop := by
  have hp := mem_of_getElem? h
  obtain ⟨hpa, hple, hpb⟩ := F.inside p hp
  have hwf := (F.wf p hp).shift hpa
  have hlength := length_slice (a := a) hb
  rw [emitPatch]
  cases ht : p.mark.tag with
  | none =>
    -- Plain text is put out as it is.
    have hclean : sep ∉ (p.mark.shift a).encode := by
      cases hm : p.mark with
      | text t =>
        have hfields := (F.wf p hp).fields
        rw [hm] at hfields
        exact hfields (.word t) (.head _)
      | _ =>
        rw [hm] at ht
        cases ht
    have hnone : tagOf (p.text a).replacement = none := tagOf_eq_none hclean
    simp only [hnone]
    cases hm : p.mark with
    | text t =>
      rw [MarkPatch.text, hm]
      rfl
    | _ =>
      rw [hm] at ht
      cases ht
  | some t =>
    have ht' : (p.mark.shift a).tag = some t := (Mark.tag_shift a p.mark).trans ht
    have htag : tagOf (p.text a).replacement = some t := Mark.tagOf_encode ht'
    have hcap : ∀ c r, p.mark.shift a = .forCap c r → ';' ∈
        (patchEnv (applyFuel L.quote n) (slice source a b) (F.patches.map (text a))
          (p.text a, k)).range r.start r.stop := by
      intro c r hshift
      obtain ⟨s, hmark, rfl⟩ := Mark.eq_forCap_of_shift hshift
      have hs : Portion.ofSpan s ∈ p.mark.portions := by
        rw [hmark]
        exact .head _
      have htext := text_patchEnv L hb F ih h hs
      have hmem := F.semicolon_mem h hmark L.quote n
      rw [show renderFuel L.quote source n (copied F.patches p k (.ofSpan s)) s.start s.stop = _
        from htext.symm] at hmem
      exact hmem
    have hstop : (shiftSpan a p.span).stop ≤ (slice source a b).length := by
      rw [hlength]
      exact Nat.sub_le_sub_right hpb a
    have hshort := lt_of_le_of_lt (Nat.sub_le p.stop a) (F.short p hp)
    have hresolve := Mark.resolve_encode L hwf ht' hstop hshort (fun _ _ => rfl) hcap
    have hlead : (slice source a b).take (p.start - a) = slice source a p.start :=
      take_slice hpa (by omega)
    simp only [htag]
    rw [show (p.text a).replacement = (p.mark.shift a).encode from rfl, hresolve, Mark.render_shift]
    simp only [patchEnv, show (p.text a).start = p.start - a from rfl, hlead]
    exact Mark.render_congr fun r hr => text_patchEnv L hb F ih h hr

end Apply

theorem Family.applyFuel_eq (L : Quoting) (n : Nat) (F : Family source a b)
    (hb : b ≤ source.length) :
    applyFuel L.quote n (slice source a b) (F.patches.map (text a)) =
      renderFuel L.quote source n F.patches a b := by
  induction n generalizing a b with
  | zero => rfl
  | succ n ih =>
    have hzip : (F.patches.map (text a)).zipIdx =
        F.patches.zipIdx.map (Prod.map (text a) id) := zipIdx_map
    have hmem : ∀ x ∈ F.patches.zipIdx, a ≤ x.1.start ∧ x.1.start ≤ x.1.stop ∧ x.1.stop ≤ b :=
      fun x hx => F.inside x.1 (fst_mem_of_mem_zipIdx hx)
    have hfits : ∀ x ∈ (F.patches.map (text a)).zipIdx,
        x.1.start ≤ x.1.stop ∧ x.1.stop ≤ (slice source a b).length := by
      rw [hzip, List.forall_mem_map, length_slice hb]
      intro x hx
      have hx' := hmem x hx
      simp only [Prod.map_fst, MarkPatch.text]
      omega
    have hshift : ∀ x ∈ F.patches.zipIdx,
        x.1.start = (Prod.map (text a) (id : Nat → Nat) x).1.start + a ∧
          x.1.stop = (Prod.map (text a) (id : Nat → Nat) x).1.stop + a := by
      intro x hx
      have hx' := hmem x hx
      simp only [Prod.map_fst, MarkPatch.text]
      omega
    have hpieces := @pieces_map _ _ Char (fun x => x.1.start) (fun x => x.1.stop)
      F.patches.zipIdx (fun x => x.1.start) (fun x => x.1.stop) (Prod.map (text a) id) a
      hshift 0 0 (slice source a b)
    -- Splice, then count positions from the beginning of the source.
    rw [applyFuel, splice_choose_sort _ hfits, hzip, hpieces, flatMap_write_map, zero_add]
    refine flatMap_congr fun x hx => ?_
    cases x with
    | inr c => rfl
    | inl p =>
      have hp := mem_zipIdx_iff_getElem?.1 (mem_of_mem_pieces hx)
      exact emitPatch_eq L hb F (fun G hG => ih G hG) hp

/-! ## What is put out -/

theorem Family.sep_not_mem_renderFuel (L : Quoting) (hsource : sep ∉ source) (n : Nat)
    (F : Family source a b) : sep ∉ renderFuel L.quote source n F.patches a b := by
  have hslice (s e : Nat) : sep ∉ slice source s e := fun h =>
    hsource (mem_of_mem_take (mem_of_mem_drop h))
  induction n generalizing a b with
  | zero => exact hslice a b
  | succ n ih =>
    intro hmem
    obtain ⟨x, hx, hsep⟩ := mem_flatMap.1 hmem
    cases x with
    | inr c =>
      obtain rfl : sep = c := mem_singleton.1 hsep
      exact hslice a b (mem_of_mem_pieces hx)
    | inl p =>
      have hp := mem_zipIdx_iff_getElem?.1 (mem_of_mem_pieces hx)
      exact Mark.sep_not_mem_render (F.wf p.1 (mem_of_getElem? hp))
        (fun r hr => ih (F.copied hp hr)) hsep

/-- A source that no marker is in. -/
structure Source where
  text : Text
  clean : sep ∉ text

/-- The patches that are put out for a part of the source, with their indices. -/
def putOut (source : Text) (F : List MarkPatch) (a b : Nat) : List (MarkPatch × Nat) :=
  printed (fun p => p.1.start) (fun p => p.1.stop) F.zipIdx a a (slice source a b)

/-- The parts of the source that are rendered, each with the patches in it: the whole, and
    the portions that the patches put out copy. -/
inductive Rendered (source : Text) (F : List MarkPatch) : Nat → Nat → List MarkPatch → Prop where
  | whole : Rendered source F 0 source.length F
  | portion {a b : Nat} {G : List MarkPatch} {p : MarkPatch × Nat} {r : Portion}
      (hG : Rendered source F a b G) (hp : p ∈ putOut source G a b) (hr : r ∈ p.1.mark.portions) :
      Rendered source F r.start r.stop (copied G p.1 p.2 r)

theorem mem_zipIdx_of_putOut {F : List MarkPatch} {p : MarkPatch × Nat}
    (h : p ∈ putOut source F a b) : p ∈ F.zipIdx := by
  obtain ⟨x, hx, hxp⟩ := mem_filterMap.1 h
  cases x with
  | inl q =>
    obtain rfl : q = p := some.inj hxp
    exact mem_of_mem_pieces hx
  | inr c => cases hxp

theorem Rendered.exists_family {F : Family source 0 source.length}
    {G : List MarkPatch} (h : Rendered source F.patches a b G) :
    b ≤ source.length ∧ ∃ G' : Family source a b, G'.patches = G := by
  induction h with
  | whole => exact ⟨le_refl _, F, rfl⟩
  | portion hG hp hr ih =>
    obtain ⟨hb, G', rfl⟩ := ih
    have hp' := mem_zipIdx_iff_getElem?.1 (mem_zipIdx_of_putOut hp)
    have hmem := mem_of_getElem? hp'
    obtain ⟨⟨-, -, hstop⟩, -⟩ := Mark.portions_wf (G'.wf _ hmem) _ hr
    obtain ⟨-, -, hpb⟩ := G'.inside _ hmem
    exact ⟨le_trans hstop (le_trans hpb hb), G'.copied hp' hr, rfl⟩

theorem Family.putOut_spec (F : Family source a b)
    (hb : b ≤ source.length) : (putOut source F.patches a b).Nodup ∧
      ∀ x, x ∈ putOut source F.patches a b ↔ x ∈ F.patches.zipIdx ∧ ∀ y ∈ F.patches.zipIdx,
        ¬ Splice.Hides (fun p : MarkPatch × Nat => p.1.start) (fun p => p.1.stop)
          F.patches.zipIdx y x := by
  have hnodup : F.patches.zipIdx.Nodup := by
    refine Nodup.of_map Prod.snd ?_
    rw [zipIdx_map_snd]
    exact nodup_range'
  have hlaminar : Splice.Laminar (fun p : MarkPatch × Nat => p.1.start) (fun p => p.1.stop)
      F.patches.zipIdx := by
    intro x hx y hy
    have hspan (x : MarkPatch × Nat) (hx : x ∈ F.patches.zipIdx) :
        x.1.span ∈ F.patches.flatMap spans :=
      mem_flatMap.2 ⟨x.1, fst_mem_of_mem_zipIdx hx, .head _⟩
    exact F.laminar x.1.span (hspan x hx) y.1.span (hspan y hy)
  have hinside : ∀ x ∈ F.patches.zipIdx, a ≤ x.1.start ∧ x.1.start ≤ x.1.stop ∧
      x.1.stop ≤ a + (slice source a b).length := by
    intro x hx
    have hx' := F.inside x.1 (fst_mem_of_mem_zipIdx hx)
    rw [length_slice hb]
    omega
  exact ⟨nodup_printed hinside hnodup, mem_printed_iff hinside hlaminar hnodup⟩

/-- `apply_patches` on the written patches of a family gives the rendering, in which no
    marker character is left. In every part of the source that is rendered, what lies outside
    all patches is kept in order, and exactly the patches that no other patch hides are put
    out, each once. -/
theorem applyPatches_family (L : Quoting) (S : Source) (F : Family S.text 0 S.text.length) :
    applyPatches L.quote S.text (F.patches.map encode) =
        render L.quote S.text F.patches 0 S.text.length ∧
      sep ∉ applyPatches L.quote S.text (F.patches.map encode) ∧
      ∀ a b G, Rendered S.text F.patches a b G →
        (outside (fun p : MarkPatch × Nat => p.1.start) (fun p => p.1.stop) G.zipIdx a
          (slice S.text a b)).Sublist (render L.quote S.text G a b) ∧
        (putOut S.text G a b).Nodup ∧
        ∀ x, x ∈ putOut S.text G a b ↔ x ∈ G.zipIdx ∧ ∀ y ∈ G.zipIdx,
          ¬ Splice.Hides (fun p : MarkPatch × Nat => p.1.start) (fun p => p.1.stop) G.zipIdx y x := by
  have heq : applyPatches L.quote S.text (F.patches.map encode) =
      render L.quote S.text F.patches 0 S.text.length := by
    have hall := F.applyFuel_eq L (F.patches.length + 1) (le_refl _)
    rw [slice, take_length, drop_zero, funext text_zero] at hall
    rw [applyPatches, length_map, hall, render]
  refine ⟨heq, ?_, fun a b G hG => ?_⟩
  · rw [heq]
    exact F.sep_not_mem_renderFuel L S.clean _
  · obtain ⟨hb, G', rfl⟩ := hG.exists_family
    exact ⟨outside_sublist_renderFuel L.quote _ _ _ _, G'.putOut_spec hb⟩

/-- The patches of `location.href`: the read of the global lies in the read of the member. -/
def locationHref : Family (lit "location.href") 0 13 where
  patches := [⟨0, 13, .memberGet ⟨0, 8⟩ (lit "href")⟩, ⟨0, 8, .globalGet (lit "location")⟩]
  inside := by decide
  short := by decide
  laminar := by
    unfold Splice.Laminar
    decide
  wf p hp := by
    have hwords : sep ∉ lit "href" ∧ sep ∉ lit "location" := by decide
    rcases mem_cons.1 hp with rfl | hp
    · refine ⟨?_, trivial⟩
      simp [Mark.fields, Field.Wf, hwords, Within, MarkPatch.span]
    · obtain rfl := mem_singleton.1 hp
      refine ⟨?_, trivial⟩
      simp [Mark.fields, Field.Wf, hwords]
  slot p hp c region hmark := by
    rcases mem_cons.1 hp with rfl | hp
    · cases hmark
    · obtain rfl := mem_singleton.1 hp
      cases hmark

def quoteName : Quoting where
  quote t := '"' :: (t.filter (· ≠ sep) ++ ['"'])
  quote_ne_nil _ := cons_ne_nil _ _
  sep_not_mem_quote t := by
    simp +decide [sep]

theorem applyPatches_location_href :
    applyPatches quoteName.quote (lit "location.href") (locationHref.patches.map encode) =
        lit "__zp_get(__zp_get(globalThis,\"location\"),\"href\")" ∧
      applyPatches quoteName.quote (lit "location.href") (locationHref.patches.map encode) =
        render quoteName.quote (lit "location.href") locationHref.patches 0 13 :=
  ⟨by decide, (applyPatches_family quoteName ⟨lit "location.href", by decide⟩ locationHref).1⟩

end ZeroProxy.Rewriter.Render
