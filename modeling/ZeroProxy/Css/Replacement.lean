import Mathlib.Data.List.Pairwise
import ZeroProxy.Splice.Scan

/-!
# Replacements in style sheets

The replacements collected in a style sheet are sorted, the outer ones first, and made one after
the other. One that begins before the end of the last one made is left out.
-/

namespace ZeroProxy.Css

open List

/-- A replacement of the bytes from one position to another. -/
structure CssReplacement where
  start : Nat
  stop : Nat
  text : List UInt8
  deriving DecidableEq

namespace CssReplacement

/-- The order in which replacements are applied. -/
def Before (a b : CssReplacement) : Prop := a.start < b.start ∨ a.start = b.start ∧ b.stop ≤ a.stop

instance : DecidableRel Before := fun _ _ => inferInstanceAs (Decidable (_ ∨ _))

instance : Std.Total Before := ⟨fun a b => by unfold Before; omega⟩

instance : IsTrans CssReplacement Before := ⟨fun a b c => by unfold Before; omega⟩

/-- The replacement lies in the source. -/
def InRange (source : List UInt8) (r : CssReplacement) : Prop :=
  r.start ≤ r.stop ∧ r.stop ≤ source.length

/-- Two replacements meet in a byte. -/
def Overlaps (a b : CssReplacement) : Prop := a.start < b.stop ∧ b.start < a.stop

instance : Std.Symm (¬ Overlaps · ·) := ⟨fun a b => by unfold Overlaps; omega⟩

/-- The one is an insertion where the other begins. -/
def InsertedAt (a b : CssReplacement) : Prop := a.start = b.start ∧ a.stop = b.start

end CssReplacement

open CssReplacement

/-- Replacements are applied in order; one that begins before the last one ended is left out. -/
def applyCssReplacements (source : List UInt8) (replacements : List CssReplacement) : List UInt8 :=
  Splice.splice start stop source text 0 (replacements.insertionSort Before)

/-- The bytes from a position on, each of the replacements made in turn. -/
def woven (source : List UInt8) : Nat → List CssReplacement → List UInt8
  | pos, [] => source.drop pos
  | pos, r :: rs => (source.take r.start).drop pos ++ r.text ++ woven source r.stop rs

variable (source : List UInt8)

theorem splice_eq_woven {rs : List CssReplacement} (hsorted : rs.Pairwise Before) (pos : Nat) :
    ∃ applied skipped, (applied ++ skipped).Perm rs ∧
      (∀ a ∈ applied, a.InRange source ∧ pos ≤ a.start) ∧ applied.Pairwise (·.stop ≤ ·.start) ∧
      Splice.splice start stop source text pos rs = woven source pos applied ∧
      ∀ r ∈ skipped, ¬ r.InRange source ∨ r.start < pos ∨
        ∃ a ∈ applied, r.Overlaps a ∨ r.InsertedAt a := by
  induction rs generalizing pos with
  | nil => exact ⟨[], [], .nil, nofun, .nil, rfl, nofun⟩
  | cons p rs ih =>
    rw [pairwise_cons] at hsorted
    rw [Splice.splice]
    split
    · next hskip =>
      obtain ⟨applied, skipped, hperm, hin, hdisjoint, hout, hskipped⟩ := ih hsorted.2 pos
      refine ⟨applied, p :: skipped, perm_middle.trans (hperm.cons p), hin, hdisjoint, hout, ?_⟩
      refine forall_mem_cons.2 ⟨?_, hskipped⟩
      rw [InRange]
      omega
    · next hfits =>
      obtain ⟨applied, skipped, hperm, hin, hdisjoint, hout, hskipped⟩ := ih hsorted.2 p.stop
      have hp : p.InRange source ∧ pos ≤ p.start := by
        rw [InRange]
        omega
      refine ⟨p :: applied, skipped, hperm.cons p, forall_mem_cons.2 ⟨hp, fun a ha => ?_⟩,
        pairwise_cons.2 ⟨fun a ha => (hin a ha).2, hdisjoint⟩, by rw [hout, woven], fun r hr => ?_⟩
      · exact ⟨(hin a ha).1, le_trans hp.2 (le_trans hp.1.1 (hin a ha).2)⟩
      · rcases hskipped r hr with hrange | hstart | ⟨a, ha, hover⟩
        · exact .inl hrange
        -- What begins before the end of `p` begins no earlier than `p`, as the list is sorted.
        · have hbefore := hsorted.1 r (hperm.subset (mem_append_right _ hr))
          refine or_iff_not_imp_left.2 fun hrange => .inr ⟨p, .head _, ?_⟩
          unfold Before InRange at *
          unfold Overlaps InsertedAt
          omega
        · exact .inr (.inr ⟨a, .tail _ ha, hover⟩)

/-- Replacements that do not overlap are made, each once, and the bytes outside them are kept;
    one is left out if it is out of range, overlaps one that is made or is an insertion where that
    one begins. The order of replacements that are apart does not matter. -/
theorem applyCssReplacements_spec (replacements : List CssReplacement) :
    (∃ applied skipped, (applied ++ skipped).Perm replacements ∧
      (∀ a ∈ applied, a.InRange source) ∧ applied.Pairwise (·.stop ≤ ·.start) ∧
      applyCssReplacements source replacements = woven source 0 applied ∧
      ∀ r ∈ skipped, ¬ r.InRange source ∨ ∃ a ∈ applied, r.Overlaps a ∨ r.InsertedAt a) ∧
    ((∀ r ∈ replacements, r.start < r.stop) → replacements.Pairwise (¬ ·.Overlaps ·) →
      ∀ other, other.Perm replacements →
        applyCssReplacements source other = applyCssReplacements source replacements) := by
  constructor
  · obtain ⟨applied, skipped, hperm, hin, hdisjoint, hout, hskipped⟩ :=
      splice_eq_woven source (pairwise_insertionSort Before replacements) 0
    refine ⟨applied, skipped, hperm.trans (perm_insertionSort Before replacements),
      fun a ha => (hin a ha).1, hdisjoint, hout, fun r hr => ?_⟩
    simpa using hskipped r hr
  · intro hne hapart other hperm
    rw [applyCssReplacements, ((perm_insertionSort Before other).trans (hperm.trans
      (perm_insertionSort Before replacements).symm)).eq_of_pairwise (fun a b ha hb hab hba => ?_)
      (pairwise_insertionSort Before other) (pairwise_insertionSort Before replacements)]
    · rfl
    rw [mem_insertionSort] at ha hb
    have ha := hperm.mem_iff.1 ha
    -- Two with the same ends would overlap.
    by_contra hab'
    have hapart' := hapart.forall ha hb hab'
    have hlt := hne a ha
    unfold Before Overlaps at *
    omega

/-- An insertion where another replacement begins is left out, though they do not overlap. -/
theorem insertion_left_out : applyCssReplacements [97] [⟨0, 1, [120]⟩, ⟨0, 0, [121]⟩] = [120] ∧
    InRange [97] ⟨0, 0, [121]⟩ ∧ ¬ Overlaps ⟨0, 0, [121]⟩ ⟨0, 1, [120]⟩ := by
  unfold InRange Overlaps
  decide

end ZeroProxy.Css
