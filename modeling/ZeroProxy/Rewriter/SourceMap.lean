import ZeroProxy.Rewriter.Visitor
import ZeroProxy.Rewriter.Rendering

/-!
# Source maps

For a script that has been rewritten a source map can be composed: segments that relate a
place of the code to one of the original. The composer goes through the patches in the order
of the list, and takes it that the text of a patch is what stands in the code.

Positions in a text count its characters. A slice that is out of order or out of bounds is a
trap (`none`).
-/

namespace ZeroProxy.Rewriter.SourceMap

open List Render Splice Text TextPatch

/-! ## The composer -/

/-- A segment: the line and column of a place in the code, and of one in the original. -/
structure Segment where
  gen : Nat × Nat
  src : Nat × Nat
  deriving DecidableEq

def offsetToLineCol (source : Text) (offset : Nat) : Nat × Nat := lineCol (source.take offset)

/-- What the composer goes along with: the cursors, the line of the code, whether there is
    a segment on it, and the segments up to here. -/
structure Walk where
  genOffset : Nat
  srcOffset : Nat
  line : Nat
  hadSegment : Bool
  segments : List Segment
  deriving DecidableEq

/-- A segment at the beginning of every line that begins in a text. -/
def anchors (site : Nat → Nat × Nat) : Nat → Nat → Text → List Segment
  | _, _, [] => []
  | line, offset, c :: text =>
    if c = '\n' then ⟨(line + 1, 0), site (offset + 1)⟩ :: anchors site (line + 1) (offset + 1) text
    else anchors site line (offset + 1) text

section Compose

variable (source rewritten : Text)

/-- The first segment of all, unless there is one. -/
def opening (w : Walk) : List Segment :=
  if w.hadSegment then []
  else [⟨(w.line, (offsetToLineCol rewritten w.genOffset).2), offsetToLineCol source w.srcOffset⟩]

/-- One patch: the text before it, which is unchanged, and its replacement. -/
def composePatch (w : Walk) (p : TextPatch) : Option Walk :=
  let gen := w.genOffset + (p.start - w.srcOffset)
  if p.start < w.srcOffset ∨ source.length < p.start ∨ rewritten.length < gen then none
  else
    let unchanged := slice rewritten w.genOffset gen
    let line := w.line + unchanged.count '\n'
    let site := offsetToLineCol source p.start
    some
      { genOffset := gen + p.replacement.length
        srcOffset := p.stop
        line := line + p.replacement.count '\n'
        hadSegment := true
        segments := w.segments ++ (opening source rewritten w ++
          (anchors (offsetToLineCol source) w.line w.srcOffset unchanged ++
            (⟨(line, (offsetToLineCol rewritten gen).2), site⟩ ::
              anchors (fun _ => site) line 0 p.replacement))) }

/-- The text after the last patch. -/
def composeTail (w : Walk) : Option (List Segment) :=
  if source.length < w.srcOffset ∨ rewritten.length < w.genOffset then none
  else
    let tail := rewritten.drop w.genOffset
    some (w.segments ++ ((if tail = [] then [] else opening source rewritten w) ++
      anchors (offsetToLineCol source) w.line w.srcOffset tail))

def composeRewriteMap (patches : List TextPatch) : Option (List Segment) := do
  let w ← patches.foldlM (composePatch source rewritten) ⟨0, 0, 0, false, []⟩
  composeTail source rewritten w

end Compose

variable (quote : Text → Text) (source : Text) (patches : List TextPatch)

/-- `rewrite_script`, after the visitor. -/
def rewriteScript : Text := stripSourcemapPragma (applyPatches quote source patches)

/-- `compose_source_map`, after the visitor. -/
def composeSourceMap : Option (List Segment) :=
  let stripped := stripSourcemapPragma source
  composeRewriteMap stripped (applyPatches quote stripped patches) patches

/-! ## What a map says -/

/-- What `apply_patches` puts out, in pieces, each with the position that it comes from. -/
def trace : List (Nat × Text) :=
  let start (p : TextPatch × Nat) := p.1.start
  let stop (p : TextPatch × Nat) := p.1.stop
  traced start stop source (emitPatch quote (applyFuel quote patches.length) source patches) 0
    (choose start stop 0 (sort start stop patches.zipIdx))

theorem text_trace : text (trace quote source patches) = applyPatches quote source patches :=
  text_traced _ _ _ _ _ _

/-- The segment relates a place of the code to where the text there comes from. -/
def Relates (s : Segment) : Prop :=
  ∃ g o, g ≤ (rewriteScript quote source patches).length ∧
    Splice.Origin source.length (trace quote source patches) g o ∧
    s.gen = offsetToLineCol (rewriteScript quote source patches) g ∧ s.src = offsetToLineCol source o

/-- There is a map, its segments relate the code to the original, and on a line they are
    in order. -/
def MapsBack : Prop :=
  ∃ segments, composeSourceMap quote source patches = some segments ∧
    (∀ s ∈ segments, Relates quote source patches s) ∧
    segments.Pairwise fun s t => s.gen.1 = t.gen.1 → s.gen.2 ≤ t.gen.2

/-! ## The walk -/

theorem anchors_eq (site : Nat → Nat × Nat) (before : Text) (offset : Nat) (text : Text) :
    anchors site (lineCol before).1 offset text =
      (breaks 0 text).map fun j => ⟨lineCol (before ++ text.take j), site (offset + j)⟩ := by
  induction text generalizing before offset with
  | nil => rfl
  | cons c text ih =>
    have hnext := ih (before ++ [c]) (offset + 1)
    rw [lineCol_concat, advance] at hnext
    have hrest : (breaks 1 text).map (fun j =>
          (⟨lineCol (before ++ (c :: text).take j), site (offset + j)⟩ : Segment)) =
        (breaks 0 text).map fun j =>
          ⟨lineCol (before ++ [c] ++ text.take j), site (offset + 1 + j)⟩ := by
      rw [breaks_succ, map_map]
      refine map_congr_left fun j _ => ?_
      rw [Function.comp_apply, append_assoc, add_assoc, add_comm 1]
      rfl
    rw [anchors, breaks]
    split
    · next hc =>
      rw [map_cons, hrest, ← hnext, take_succ_cons, take_zero, lineCol_concat, advance, if_pos hc]
    · next hc =>
      rw [if_neg hc] at hnext
      rw [hrest, ← hnext]

section Walk

variable {source : Text} {pieces : List (Nat × Text)}

def segment (source rewritten : Text) (m : Nat × Nat) : Segment :=
  ⟨offsetToLineCol rewritten m.1, offsetToLineCol source m.2⟩

/-- Places of the code from `lo` to `hi`, in order, with the positions they come from. -/
structure Marks (source : Text) (pieces : List (Nat × Text)) (lo hi : Nat) (ms : List (Nat × Nat)) :
    Prop where
  sorted : ms.Pairwise fun m m' => m.1 ≤ m'.1
  origin : ∀ m ∈ ms, lo ≤ m.1 ∧ m.1 ≤ hi ∧ m.2 ≤ source.length ∧
    Splice.Origin source.length pieces m.1 m.2

theorem Marks.append {lo mid hi : Nat} {ms ms' : List (Nat × Nat)}
    (h : Marks source pieces lo mid ms) (h' : Marks source pieces mid hi ms') (hlo : lo ≤ mid)
    (hhi : mid ≤ hi) : Marks source pieces lo hi (ms ++ ms') := by
  refine ⟨pairwise_append.2 ⟨h.sorted, h'.sorted, fun m hm m' hm' => ?_⟩, fun m hm => ?_⟩
  · exact le_trans (h.origin m hm).2.1 (h'.origin m' hm').1
  · rcases mem_append.1 hm with hm | hm
    · obtain ⟨h₁, h₂, h₃⟩ := h.origin m hm
      exact ⟨h₁, le_trans h₂ hhi, h₃⟩
    · obtain ⟨h₁, h₂, h₃⟩ := h'.origin m hm
      exact ⟨le_trans hlo h₁, h₂, h₃⟩

theorem Marks.nil (lo hi : Nat) : Marks source pieces lo hi [] :=
  ⟨.nil, nofun⟩

theorem Marks.single {g o : Nat} (ho : o ≤ source.length)
    (h : Splice.Origin source.length pieces g o) : Marks source pieces g g [(g, o)] := by
  refine ⟨pairwise_singleton _ _, fun m hm => ?_⟩
  obtain rfl := mem_singleton.1 hm
  exact ⟨le_refl _, le_refl _, ho, h⟩

variable {text : Text}

theorem Marks.breaks {g : Nat} {site : Nat → Nat} (h : ∀ j ∈ breaks 0 text, site j ≤ source.length ∧
      Splice.Origin source.length pieces (g + j) (site j)) :
    Marks source pieces g (g + text.length) ((Text.breaks 0 text).map fun j => (g + j, site j)) := by
  refine ⟨?_, fun m hm => ?_⟩
  · rw [pairwise_map]
    exact (pairwise_breaks 0 text).imp fun h => Nat.add_le_add_left h g
  · obtain ⟨j, hj, rfl⟩ := mem_map.1 hm
    have hle := (le_of_mem_breaks hj).2
    exact ⟨Nat.le_add_right g j, by omega, h j hj⟩

/-- The walk has come to the pieces `rest`: its segments are those of marks up to here. -/
structure Reached (source : Text) (pieces rest : List (Nat × Text)) (w : Walk) : Prop where
  split : ∃ before, pieces = before ++ rest ∧ w.genOffset = (Splice.text before).length ∧
    w.line = (lineCol (Splice.text before)).1
  marks : ∃ ms, w.segments = ms.map (segment source (Splice.text pieces)) ∧
    Marks source pieces 0 w.genOffset ms

theorem Reached.start : Reached source pieces pieces ⟨0, 0, 0, false, []⟩ :=
  ⟨⟨[], rfl, rfl, rfl⟩, [], rfl, Marks.nil 0 0⟩

/-- Where the first segment of all is. -/
def openMarks (w : Walk) : List (Nat × Nat) :=
  if w.hadSegment then [] else [(w.genOffset, w.srcOffset)]

section Segments

variable {before text after : Text} {w : Walk}

theorem opening_eq (hgen : w.genOffset = before.length) (hline : w.line = (lineCol before).1) :
    opening source (before ++ after) w =
      (openMarks w).map (segment source (before ++ after)) := by
  have htake : offsetToLineCol (before ++ after) w.genOffset = lineCol before := by
    rw [offsetToLineCol, hgen, take_left]
  rw [opening, openMarks]
  split
  · rfl
  · rw [map_singleton, segment, htake, hline]

theorem anchors_segments (site : Nat → Nat) (offset : Nat) :
    anchors (fun j => offsetToLineCol source (site j)) (lineCol before).1 offset text =
      ((breaks 0 text).map fun j => (before.length + j, site (offset + j))).map
        (segment source (before ++ (text ++ after))) := by
  rw [anchors_eq, map_map]
  refine map_congr_left fun j hj => ?_
  have hle := (le_of_mem_breaks hj).2
  have htake : offsetToLineCol (before ++ (text ++ after)) (before.length + j) =
      lineCol (before ++ text.take j) := by
    rw [offsetToLineCol, take_length_add_append, take_append_of_le_length (by omega)]
  rw [Function.comp_apply, segment, htake]

def patchMarks (w : Walk) (text : Text) (p : TextPatch) : List (Nat × Nat) :=
  openMarks w ++ ((breaks 0 text).map (fun j => (w.genOffset + j, w.srcOffset + j)) ++
    (w.genOffset + text.length, p.start) ::
      (breaks 0 p.replacement).map fun j => (w.genOffset + text.length + j, p.start))

theorem composePatch_eq {p : TextPatch} (hgen : w.genOffset = before.length)
    (hline : w.line = (lineCol before).1) (hstart : w.srcOffset ≤ p.start)
    (hlen : p.start ≤ source.length) (htext : text.length = p.start - w.srcOffset) :
    composePatch source (before ++ (text ++ (p.replacement ++ after))) w p = some
      { genOffset := w.genOffset + text.length + p.replacement.length
        srcOffset := p.stop
        line := (lineCol (before ++ text ++ p.replacement)).1
        hadSegment := true
        segments := w.segments ++ (patchMarks w text p).map
          (segment source (before ++ (text ++ (p.replacement ++ after)))) } := by
  have hslice : slice (before ++ (text ++ (p.replacement ++ after))) w.genOffset
      (w.genOffset + text.length) = text := by
    rw [slice, hgen, take_length_add_append, drop_left, take_left]
  have hline' : w.line + text.count '\n' = (lineCol (before ++ text)).1 := by
    rw [line_append, hline]
  have htake : offsetToLineCol (before ++ (text ++ (p.replacement ++ after)))
      (w.genOffset + text.length) = lineCol (before ++ text) := by
    rw [offsetToLineCol, hgen, ← append_assoc, ← length_append, take_left]
  have hunchanged := @anchors_segments source before text (p.replacement ++ after) (fun j => j)
    w.srcOffset
  have hrepl := @anchors_segments source (before ++ text) p.replacement after (fun _ => p.start) 0
  rw [← hline, ← hgen] at hunchanged
  rw [length_append, ← hgen, append_assoc] at hrepl
  rw [composePatch, ← htext, if_neg (by simp only [length_append]; omega)]
  dsimp only
  rw [hslice, hline', opening_eq hgen hline, hunchanged, hrepl, ← line_append, patchMarks,
    map_append, map_append, map_cons, segment, htake]

end Segments

variable {w : Walk}

theorem marks_unchanged {before after : List (Nat × Text)}
    (hpieces : pieces = before ++ (singles w.srcOffset text ++ after))
    (hgen : w.genOffset = (Splice.text before).length)
    (hle : w.srcOffset + text.length ≤ source.length)
    (hafter : Splice.Origin source.length after 0 (w.srcOffset + text.length)) :
    Marks source pieces w.genOffset w.genOffset (openMarks w) ∧
      Marks source pieces w.genOffset (w.genOffset + text.length)
        ((breaks 0 text).map fun j => (w.genOffset + j, w.srcOffset + j)) := by
  have horigin (j : Nat) (hj : j ≤ text.length) :
      Splice.Origin source.length pieces (w.genOffset + j) (w.srcOffset + j) := by
    rw [hpieces, hgen]
    exact .append (.singles hj hafter)
  refine ⟨?_, .breaks fun j hj => ?_⟩
  · rw [openMarks]
    split
    · exact .nil _ _
    · exact .single (by omega) (horigin 0 (Nat.zero_le _))
  · have hj := (le_of_mem_breaks hj).2
    exact ⟨by omega, horigin j (by omega)⟩

theorem marks_patch {before rest : List (Nat × Text)} {p : TextPatch}
    (hpieces : pieces = before ++ (singles w.srcOffset text ++ (p.start, p.replacement) :: rest))
    (hgen : w.genOffset = (Splice.text before).length) (htext : w.srcOffset + text.length = p.start)
    (hlen : p.start ≤ source.length) (hlast : p.replacement.getLast? ≠ some '\n') :
    Marks source pieces w.genOffset (w.genOffset + text.length + p.replacement.length)
      (patchMarks w text p) := by
  obtain ⟨hopen, hunchanged⟩ := @marks_unchanged source _ _ _ _ _ hpieces hgen (by omega) (by
    rw [htext]
    exact .head (p.start, p.replacement) rest)
  have horigin (j : Nat) (hj : j = 0 ∨ j < p.replacement.length) : Splice.Origin source.length pieces
      (w.genOffset + text.length + j) p.start := by
    have hthere : Splice.Origin source.length ((p.start, p.replacement) :: rest) j p.start :=
      .inl ⟨rfl, hj⟩
    have hall := (hthere.append (l := singles w.srcOffset text)).append (l := before)
    rw [text_singles, ← add_assoc, ← hgen, ← hpieces] at hall
    exact hall
  have hbreaks : ∀ j ∈ breaks 0 p.replacement, p.start ≤ source.length ∧
      Splice.Origin source.length pieces (w.genOffset + text.length + j) p.start := by
    intro j hj
    refine ⟨hlen, horigin j (.inr ?_)⟩
    -- A line that begins after the replacement would be put down to the patch.
    have hle := (le_of_mem_breaks hj).2
    rw [zero_add] at hle
    refine lt_of_le_of_ne hle fun heq => hlast ?_
    rw [getLast?_eq_getElem?, ← heq]
    exact getElem?_of_mem_breaks hj
  have hpatch := (Marks.single hlen (horigin 0 (.inl rfl))).append (.breaks hbreaks) (le_refl _)
    (Nat.le_add_right _ _)
  exact hopen.append (hunchanged.append hpatch (Nat.le_add_right _ _) (Nat.le_add_right _ _))
    (le_refl _) (by omega)

theorem Reached.step {p : TextPatch} {rest : List (Nat × Text)} (h : Reached source pieces
      (singles w.srcOffset text ++ (p.start, p.replacement) :: rest) w)
    (htext : w.srcOffset + text.length = p.start) (hlen : p.start ≤ source.length)
    (hlast : p.replacement.getLast? ≠ some '\n') :
    ∃ w', composePatch source (Splice.text pieces) w p = some w' ∧ w'.srcOffset = p.stop ∧
      Reached source pieces rest w' := by
  obtain ⟨⟨before, hpieces, hgen, hline⟩, ms, hms, hmarks⟩ := h
  have hcode : Splice.text pieces =
      Splice.text before ++ (text ++ (p.replacement ++ Splice.text rest)) := by
    rw [hpieces]
    simp
  have hstep := @composePatch_eq source (Splice.text before) text (Splice.text rest) w p hgen hline
    (by omega) hlen (by omega)
  rw [← hcode] at hstep
  refine ⟨_, hstep, rfl, ⟨before ++ (singles w.srcOffset text ++ [(p.start, p.replacement)]),
    ?_, ?_, ?_⟩, ms ++ patchMarks w text p, ?_, ?_⟩
  · rw [hpieces]
    simp
  · simp [hgen, add_assoc]
  · simp
  · rw [map_append, hms]
  · exact hmarks.append (marks_patch hpieces hgen htext hlen hlast) (Nat.zero_le _) (by
      dsimp only
      omega)

theorem Reached.tail (h : Reached source pieces (singles w.srcOffset text) w)
    (htext : w.srcOffset + text.length = source.length) :
    ∃ ms, composeTail source (Splice.text pieces) w =
        some (ms.map (segment source (Splice.text pieces))) ∧
      Marks source pieces 0 (Splice.text pieces).length ms := by
  obtain ⟨⟨before, hpieces, hgen, hline⟩, ms, hms, hmarks⟩ := h
  have hcode : Splice.text pieces = Splice.text before ++ text := by
    rw [hpieces, Splice.text_append, Splice.text_singles]
  have hdrop : (Splice.text pieces).drop w.genOffset = text := by
    rw [hcode, hgen, drop_left]
  have hpieces' : pieces = before ++ (Splice.singles w.srcOffset text ++ []) := by
    rw [append_nil, hpieces]
  obtain ⟨hopen, hunchanged⟩ := marks_unchanged hpieces' hgen (by omega) ⟨rfl, htext⟩
  have hanchors := @anchors_segments source (Splice.text before) text [] (fun j => j) w.srcOffset
  rw [← hline, ← hgen, append_nil, ← hcode] at hanchors
  have hlen : (Splice.text pieces).length = w.genOffset + text.length := by
    rw [hcode, length_append, hgen]
  have hopening := @opening_eq source (Splice.text before) text w hgen hline
  rw [← hcode] at hopening
  refine ⟨ms ++ ((if text = [] then [] else openMarks w) ++
    (breaks 0 text).map fun j => (w.genOffset + j, w.srcOffset + j)), ?_, ?_⟩
  · rw [composeTail, if_neg (by omega)]
    dsimp only
    rw [hdrop, hanchors, hopening, hms, map_append, map_append]
    split
    · rw [map_nil]
    · rfl
  rw [hlen]
  refine hmarks.append (.append ?_ hunchanged (le_refl _) (Nat.le_add_right _ _))
    (Nat.zero_le _) (Nat.le_add_right _ _)
  split
  · exact .nil _ _
  · exact hopen

theorem Reached.run {ps : List TextPatch} (h : Reached source pieces
      (traced TextPatch.start TextPatch.stop source TextPatch.replacement w.srcOffset ps) w)
    (hfollow : Splice.Follow TextPatch.start TextPatch.stop source.length w.srcOffset ps)
    (hlast : ∀ p ∈ ps, p.replacement.getLast? ≠ some '\n') :
    ∃ ms, (ps.foldlM (composePatch source (Splice.text pieces)) w >>=
        composeTail source (Splice.text pieces)) =
          some (ms.map (segment source (Splice.text pieces))) ∧
      Marks source pieces 0 (Splice.text pieces).length ms := by
  induction ps generalizing w with
  | nil =>
    have hle : w.srcOffset ≤ source.length := hfollow
    refine Reached.tail h ?_
    rw [length_drop, Nat.add_sub_cancel' hle]
  | cons p ps ih =>
    rw [forall_mem_cons] at hlast
    rw [hfollow.traced_cons] at h
    obtain ⟨hi, hp, hps⟩ := hfollow
    have hle := hps.le
    have htext : w.srcOffset + (slice source w.srcOffset p.start).length = p.start := by
      rw [length_slice (by omega), Nat.add_sub_cancel' hi]
    obtain ⟨w', hstep, hstop, hreached⟩ := Reached.step h htext (by omega) hlast.1
    rw [← hstop] at hreached hps
    rw [foldlM_cons, hstep]
    exact ih hreached hps hlast.2

theorem follow_of_foldlM {rewritten : Text} {ps : List TextPatch} {w' : Walk}
    (hspan : ∀ p ∈ ps, p.start ≤ p.stop)
    (h : ps.foldlM (composePatch source rewritten) w = some w') (hend : w'.srcOffset ≤ source.length) :
    Splice.Follow start stop source.length w.srcOffset ps := by
  induction ps generalizing w with
  | nil =>
    cases h
    exact hend
  | cons p ps ih =>
    rw [forall_mem_cons] at hspan
    rw [foldlM_cons, composePatch] at h
    split at h
    · cases h
    · next hfits =>
      exact ⟨by omega, hspan.1, ih hspan.2 h⟩

end Walk

/-! ## Patches that are put out as written -/

def NoPragma (text : Text) : Prop := ∀ kept removed, text = kept ++ removed → ¬ Pragma kept removed

/-- A source with the replacements of patches in the place of their spans. -/
def patched : List (Nat × Text) := traced start stop source replacement 0 patches

/-- Patches that follow one another in the source up to its source-map comment, and that
    are no markers. -/
structure Plain : Prop where
  follow : Splice.Follow start stop (stripSourcemapPragma source).length 0 patches
  text : ∀ p ∈ patches, tagOf p.replacement = none
  last : ∀ p ∈ patches, p.replacement.getLast? ≠ some '\n'
  /-- Nothing is patched, or there is a source-map comment on a later line, or there is none,
      before and after. -/
  comment : patches = [] ∨
    (∃ kept line after, source = kept ++ '\n' :: (line ++ (needle ++ after)) ∧ PragmaLine line after) ∨
    NoPragma source ∧ NoPragma (Splice.text (patched source patches))

variable {source patches}

theorem exists_of_stripSourcemapPragma (source : Text) :
    ∃ more, source = stripSourcemapPragma source ++ more := by
  by_cases h : NoPragma source
  · refine ⟨[], ?_⟩
    rw [stripSourcemapPragma_eq_self h, append_nil]
  · unfold NoPragma at h
    push Not at h
    obtain ⟨kept, removed, rfl, h⟩ := h
    exact ⟨removed, by rw [stripSourcemapPragma_append h]⟩

theorem trace_of_follow
    (hfollow : Splice.Follow start stop source.length 0 patches)
    (htext : ∀ p ∈ patches, tagOf p.replacement = none) :
    trace quote source patches = patched source patches := by
  have hfst : patches.zipIdx.map Prod.fst = patches := zipIdx_map_fst 0 patches
  have hzip : Splice.Follow (start ∘ Prod.fst) (stop ∘ Prod.fst) source.length 0
      patches.zipIdx := .map (by rwa [hfst])
  have hemit : ∀ p ∈ patches.zipIdx, emitPatch quote (applyFuel quote patches.length) source patches p =
      p.1.replacement := by
    intro p hp
    rw [emitPatch, htext p.1 (fst_mem_of_mem_zipIdx hp)]
  have hmap := @traced_map _ _ _ start stop source replacement _ _ _
    hemit 0
  rw [hfst] at hmap
  rw [patched, ← hmap]
  exact congrArg (traced _ _ source _ 0) hzip.choose_sort

theorem composeRewriteMap_of_follow
    (hfollow : Splice.Follow start stop source.length 0 patches)
    (hlast : ∀ p ∈ patches, p.replacement.getLast? ≠ some '\n') :
    ∃ ms, composeRewriteMap source (text (patched source patches)) patches =
        some (ms.map (segment source (text (patched source patches)))) ∧
      Marks source (patched source patches) 0 (text (patched source patches)).length ms :=
  Reached.run Reached.start hfollow hlast

theorem segment_le {rewritten : Text} {m m' : Nat × Nat} (h : m.1 ≤ m'.1)
    (hline : (segment source rewritten m).gen.1 = (segment source rewritten m').gen.1) :
    (segment source rewritten m).gen.2 ≤ (segment source rewritten m').gen.2 := by
  have hle := lineCol_le (rewritten.take m.1) ((rewritten.take m'.1).drop m.1)
  have htake : rewritten.take m.1 = (rewritten.take m'.1).take m.1 := by
    rw [take_take, min_eq_left h]
  rw [htake, take_append_drop, ← htake] at hle
  simp only [segment, offsetToLineCol] at hline ⊢
  omega

namespace Plain

variable (h : Plain source patches)
include h

theorem trace_eq {more : Text} (hmore : source = stripSourcemapPragma source ++ more) :
    trace quote source patches = patched (stripSourcemapPragma source) patches ++
      singles (stripSourcemapPragma source).length more := by
  have hfollow : Splice.Follow start stop source.length 0 patches := h.follow.mono (by
      have hlen := congrArg length hmore
      rw [length_append] at hlen
      omega)
  rw [trace_of_follow quote hfollow h.text, patched, patched, ← h.follow.traced_append, ← hmore]

theorem applyPatches_eq : applyPatches quote (stripSourcemapPragma source) patches =
    Splice.text (patched (stripSourcemapPragma source) patches) := by
  rw [← text_trace, trace_of_follow quote h.follow h.text]

theorem rewriteScript_eq : rewriteScript quote source patches =
    Splice.text (patched (stripSourcemapPragma source) patches) := by
  obtain ⟨more, hmore⟩ := exists_of_stripSourcemapPragma source
  rw [rewriteScript, ← text_trace, h.trace_eq quote hmore, Splice.text_append, Splice.text_singles]
  rcases h.comment with rfl | ⟨kept, line, after, hsource, hline⟩ | ⟨hnone, hnone'⟩
  · have htext : Splice.text (patched (stripSourcemapPragma source) []) = stripSourcemapPragma source := by
      rw [patched, Splice.traced, drop_zero, Splice.text_singles]
    rw [htext, ← hmore]
  · -- The comment is where it was, after what is kept.
    have hkept : stripSourcemapPragma source = kept := by
      rw [hsource, stripSourcemapPragma_append (.later kept hline)]
    rw [hkept, hsource] at hmore
    rw [← append_cancel_left hmore, stripSourcemapPragma_append (.later _ hline)]
  · have hself : stripSourcemapPragma source = source := stripSourcemapPragma_eq_self hnone
    rw [hself] at hmore ⊢
    rw [self_eq_append_right.1 hmore, append_nil, stripSourcemapPragma_eq_self hnone']

theorem mapsBack : MapsBack quote source patches := by
  obtain ⟨more, hmore⟩ := exists_of_stripSourcemapPragma source
  have hcode := h.rewriteScript_eq quote
  have htrace := h.trace_eq quote hmore
  obtain ⟨ms, hms, hmarks⟩ := composeRewriteMap_of_follow h.follow h.last
  rw [← h.applyPatches_eq quote] at hms
  refine ⟨_, hms, fun s hs => ?_, ?_⟩
  · obtain ⟨⟨g, o⟩, hm, rfl⟩ := mem_map.1 hs
    obtain ⟨-, hg, ho, horigin⟩ := hmarks.origin _ hm
    have hlen : source.length = (stripSourcemapPragma source).length + more.length := by
      rw [← length_append, ← hmore]
    -- What is cut off comes after the code.
    have hrest : Splice.Origin source.length
        (singles (stripSourcemapPragma source).length more) 0
        (stripSourcemapPragma source).length := by
      have hsingles := @Splice.Origin.singles _ source.length (stripSourcemapPragma source).length 0 more
        (Nat.zero_le _) [] ⟨rfl, hlen.symm⟩
      rw [append_nil] at hsingles
      exact hsingles
    have hsrc : offsetToLineCol (stripSourcemapPragma source) o = offsetToLineCol source o := by
      rw [offsetToLineCol, ← @take_append_of_le_length _ (stripSourcemapPragma source) more _ ho,
        ← hmore, offsetToLineCol]
    refine ⟨g, o, ?_, ?_, ?_, hsrc⟩
    · rw [hcode]
      exact hg
    · rw [htrace]
      exact horigin.append_right hrest
    · rw [hcode, h.applyPatches_eq, segment]
  · rw [pairwise_map]
    exact hmarks.sorted.imp segment_le

end Plain

/-- A map is composed only for patches that follow one another in the source up to its
    source-map comment. If they are also no markers, do not end a line, and leave the
    comment where it is, then the map relates the code to the original. -/
theorem mapsBack_of_plain (quote : Text → Text) (source : Text) (patches : List TextPatch) :
    (MapsBack quote source patches → (∀ p ∈ patches, p.start ≤ p.stop) →
      Splice.Follow start stop (stripSourcemapPragma source).length 0 patches) ∧
    (Plain source patches → MapsBack quote source patches) := by
  refine ⟨?_, fun h => h.mapsBack quote⟩
  rintro ⟨segments, hmap, -, -⟩ hspan
  obtain ⟨w, hw, htail⟩ := Option.bind_eq_some_iff.1 hmap
  refine follow_of_foldlM hspan hw ?_
  rw [composeTail] at htail
  split at htail
  · cases htail
  · omega

theorem noPragma_of_length {text : Text} (h : text.length < needle.length) : NoPragma text := by
  rintro kept removed rfl hpragma
  have hlen : needle.length ≤ removed.length := by
    cases hpragma with
    | first _ =>
      simp only [length_append]
      omega
    | later _ _ =>
      simp only [length_append, length_cons]
      omega
  rw [length_append] at h
  omega

/-- The patch of a module specifier. -/
theorem mapsBack_import :
    Plain (lit "import \"a\"") [⟨7, 10, lit "\"/a\""⟩] ∧
      MapsBack quoteName.quote (lit "import \"a\"") [⟨7, 10, lit "\"/a\""⟩] := by
  have hplain : Plain (lit "import \"a\"") [⟨7, 10, lit "\"/a\""⟩] := by
    have hnone : NoPragma (lit "import \"a\"") := noPragma_of_length (by decide)
    have hnone' : NoPragma (text (patched (lit "import \"a\"") [⟨7, 10, lit "\"/a\""⟩])) :=
      noPragma_of_length (by decide)
    refine ⟨?_, by decide, by decide, .inr (.inr ⟨hnone, hnone'⟩)⟩
    rw [stripSourcemapPragma_eq_self hnone]
    decide
  exact ⟨hplain, (mapsBack_of_plain _ _ _).2 hplain⟩

def readsHref : Script where
  strict := false
  prologue := none
  span := ⟨0, 13⟩
  body := [.mk ⟨.expressionStatement, ⟨0, 13⟩⟩
    [.mk ⟨.staticMemberExpression (lit "href") false, ⟨0, 13⟩⟩
      [.mk ⟨.identifierReference (lit "location"), ⟨0, 8⟩⟩ []]]]
  distinct := by decide
  nested := by decide
  apart := by decide
  assigned := by decide

/-- Its patches are nested, and the composer traps at the second. -/
theorem nested_patches_trap :
    rewrite ⟨fun _ => none, fun _ => none⟩ ⟨.classic, [], []⟩ readsHref =
        [⟨⟨0, 8⟩, .globalGet (lit "location")⟩, ⟨⟨0, 13⟩, .memberGet ⟨0, 8⟩ (lit "href")⟩] ∧
      composeSourceMap quoteName.quote (lit "location.href")
        [⟨0, 8, (Mark.globalGet (lit "location")).encode⟩,
          ⟨0, 13, (Mark.memberGet ⟨0, 8⟩ (lit "href")).encode⟩] = none ∧
      ¬ MapsBack quoteName.quote (lit "location.href")
        [⟨0, 8, (Mark.globalGet (lit "location")).encode⟩,
          ⟨0, 13, (Mark.memberGet ⟨0, 8⟩ (lit "href")).encode⟩] := by
  have hnone : composeSourceMap quoteName.quote (lit "location.href")
      [⟨0, 8, (Mark.globalGet (lit "location")).encode⟩,
        ⟨0, 13, (Mark.memberGet ⟨0, 8⟩ (lit "href")).encode⟩] = none := by decide
  refine ⟨by decide, hnone, ?_⟩
  rintro ⟨segments, hmap, -, -⟩
  cases hmap

/-! ## The field `mappings` -/

/-! ### Writing -/

def base64Alphabet : Text := "ABCDEFGHIJKLMNOPQRSTUVWXYZabcdefghijklmnopqrstuvwxyz0123456789+/"

def sextet (n : Nat) : Char := base64Alphabet.getD n 'A'

/-- The loop of `vlq_encode_into`: five bits a digit, with a flag if there are more. -/
def vlqDigits (vlq : Nat) : Text :=
  if vlq / 32 = 0 then [sextet (vlq % 32)] else sextet (vlq % 32 + 32) :: vlqDigits (vlq / 32)
  termination_by vlq
  decreasing_by omega

/-- `vlq_encode_into`: the sign is the lowest bit. -/
def vlqEncode (value : Int) : Text :=
  vlqDigits (if value < 0 then 2 * value.natAbs + 1 else 2 * value.natAbs)

/-- What `emit_segment` writes. There is a single source. -/
def segmentText (genCol : Nat) (src : Nat × Nat) (s : Segment) : Text :=
  vlqEncode (s.gen.2 - genCol) ++ (vlqEncode 0 ++
    (vlqEncode (s.src.1 - src.1) ++ vlqEncode (s.src.2 - src.2)))

/-- The rest of a line and the lines after it, after a segment at `genCol` and `src`. -/
def emitSegments (needsComma : Bool) (genCol : Nat) (src : Nat × Nat) :
    List Segment → List (List Segment) → Text
  | [], [] => []
  | [], line :: lines => ';' :: emitSegments false 0 src line lines
  | s :: line, lines => (if needsComma then [','] else []) ++ (segmentText genCol src s ++
      emitSegments true s.gen.2 s.src line lines)
  termination_by line lines => (lines.length, line.length)

def mappings (line : List Segment) (lines : List (List Segment)) : Text :=
  emitSegments false 0 (0, 0) line lines

/-! ### Reading -/

def signed (n : Nat) : Int := if n % 2 = 1 then -(n / 2 : Nat) else (n / 2 : Nat)

/-- The segment that ends here, unless there is none. -/
def close (fields : List Int) : List (List Int) := if fields = [] then [] else [fields]

/-- The lines of segments, each with its fields. A number is added to the field at its place in
    the segment before; the first field begins anew with each line. -/
def decode (value weight : Nat) (fields prev : List Int) :
    Text → Option (List (List (List Int)))
  | [] => if weight = 1 then some [close fields] else none
  | c :: t =>
    let next := fields ++ prev.drop fields.length
    if c = ',' ∨ c = ';' then
      if weight ≠ 1 then none
      else if c = ';' then (decode 0 1 [] (next.set 0 0) t).map (close fields :: ·)
      else (decode 0 1 [] next t).map (modifyHead (close fields ++ ·))
    else match base64Alphabet.idxOf? c with
    | none => none
    | some digit =>
      let value := value + digit % 32 * weight
      if 32 ≤ digit then decode value (32 * weight) fields prev t
      else decode 0 1 (fields ++ [prev.getD fields.length 0 + signed value]) prev t

def Segment.fields (s : Segment) : List Int := [s.gen.2, 0, s.src.1, s.src.2]

variable {fields prev : List Int}

theorem decode_sextet {n : Nat} (hn : n < 64) (value weight : Nat) (t : Text) :
    decode value weight fields prev (sextet n :: t) =
      if 32 ≤ n then decode (value + n % 32 * weight) (32 * weight) fields prev t
      else decode 0 1 (fields ++ [prev.getD fields.length 0 + signed (value + n % 32 * weight)])
        prev t := by
  have hall : ∀ n < 64, ¬ (sextet n = ',' ∨ sextet n = ';') ∧
      base64Alphabet.idxOf? (sextet n) = some n := by decide +kernel
  obtain ⟨hsep, hdigit⟩ := hall n hn
  rw [decode, if_neg hsep, hdigit]

theorem decode_vlqDigits (n value weight : Nat) (t : Text) :
    decode value weight fields prev (vlqDigits n ++ t) =
      decode 0 1 (fields ++ [prev.getD fields.length 0 + signed (value + n * weight)]) prev t := by
  induction n using Nat.strongRecOn generalizing value weight with
  | ind n ih =>
    rw [vlqDigits]
    split
    · rw [singleton_append, decode_sextet (by omega), if_neg (by omega), Nat.mod_mod,
        Nat.mod_eq_of_lt (by omega)]
    · have hvalue : value + (n % 32 + 32) % 32 * weight + n / 32 * (32 * weight) =
          value + n * weight := by
        rw [Nat.add_mod_right, Nat.mod_mod, add_assoc, ← Nat.mul_assoc, ← Nat.add_mul]
        congr 2
        omega
      rw [cons_append, decode_sextet (by omega), if_pos (by omega), ih _ (by omega), hvalue]

theorem decode_vlqEncode (value : Int) (t : Text) : decode 0 1 fields prev (vlqEncode value ++ t) =
    decode 0 1 (fields ++ [prev.getD fields.length 0 + value]) prev t := by
  rw [vlqEncode, decode_vlqDigits]
  congr
  unfold signed
  split <;> split <;> omega

theorem decode_segmentText (genCol : Nat) (src : Nat × Nat) (s : Segment) (name : Int) (t : Text) :
    decode 0 1 [] [genCol, 0, src.1, src.2, name] (segmentText genCol src s ++ t) =
      decode 0 1 s.fields [genCol, 0, src.1, src.2, name] t := by
  have hsum (a b : Nat) : (a : Int) + (b - a) = b := by omega
  simp [segmentText, decode_vlqEncode, Segment.fields, hsum]

theorem decode_emitSegments (needsComma : Bool) (genCol : Nat) (src : Nat × Nat)
    (line : List Segment) (lines : List (List Segment)) (name : Int)
    (hfields : needsComma = false → fields = [])
    (hprev : fields ++ prev.drop fields.length = [↑genCol, 0, ↑src.1, ↑src.2, name]) :
    decode 0 1 fields prev (emitSegments needsComma genCol src line lines) =
      some ((close fields ++ line.map Segment.fields) :: lines.map (·.map Segment.fields)) := by
  induction needsComma, genCol, src, line, lines using emitSegments.induct generalizing fields prev with
  | case1 => simp [emitSegments, decode]
  | case2 needsComma genCol src line lines ih =>
    rw [emitSegments, decode, hprev]
    simp [ih, close]
  | case3 needsComma genCol src s line lines ih =>
    have hseg := decode_segmentText genCol src s name
      (emitSegments true s.gen.2 s.src line lines)
    rw [ih nofun rfl] at hseg
    rw [emitSegments]
    cases needsComma with
    | false =>
      obtain rfl := hfields rfl
      rw [length_nil, drop_zero, nil_append] at hprev
      rw [hprev]
      simpa [close, Segment.fields] using hseg
    | true =>
      rw [if_pos rfl, singleton_append, decode, hprev, hseg]
      simp [close, Segment.fields]

/-- Reading what was written gives the segments, line by line. -/
theorem decode_mappings (line : List Segment) (lines : List (List Segment)) :
    decode 0 1 [] [0, 0, 0, 0, 0] (mappings line lines) =
      some ((line :: lines).map (·.map Segment.fields)) :=
  decode_emitSegments false 0 (0, 0) line lines 0 (fun _ => rfl) rfl

end ZeroProxy.Rewriter.SourceMap
