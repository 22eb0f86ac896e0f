import ZeroProxy.Machine.Run

/-!
# Filtered views of live collections

A page is given a view of a collection of the document, without the elements that are hidden
from it. The view keeps the list it has made, as long as the collection has as many elements as
it had then.
-/

namespace ZeroProxy.Membrane.FilteredCollection

open Machine Option

/-- A live collection at a moment, and which elements the predicate lets through. -/
structure Live (ι : Type) where
  raw : List ι
  predicate : ι → Bool

variable {ι : Type}

/-- What the page may see. -/
def Live.filtered (c : Live ι) : List ι := c.raw.filter c.predicate

/-- What is read of a view. An iteration that has come to an index reads the length, and the
    element at the index if there is one. -/
inductive Read
  | length
  | index (i : Nat)
  | next (i : Nat)

/-- What is read of a list. -/
def Read.of (items : List ι) : Read → Nat ⊕ Option ι
  | length => .inl items.length
  | index i => .inr items[i]?
  | next i => .inr (if i < items.length then items[i]? else none)

/-- The list kept comes with the length of the collection that it was made from. -/
structure State (ι : Type) where
  live : Live ι
  cache : Option (Nat × List ι)

/-- What the collection answers from. -/
def State.items (s : State ι) : List ι :=
  match s.cache with
  | some (cacheLen, cache) => if cacheLen = s.live.raw.length then cache else s.live.filtered
  | none => s.live.filtered

/-- The document changes, or the page reads. -/
inductive Act (ι : Type)
  | change (live : Live ι)
  | read (r : Read)

/-- A change is not noticed before a read. -/
def step (s : State ι) : Act ι → State ι
  | .change live => { s with live }
  | .read _ => { s with cache := some (s.live.raw.length, s.items) }

/-- A read gives what the filter of the collection gives at that moment. -/
def Exact (s : State ι) : Act ι → Prop
  | .change _ => True
  | .read r => r.of s.items = r.of s.live.filtered

/-- The earlier collection if it has the length of the present one, which is else taken. -/
def latest (made : Option (Live ι)) (live : Live ι) : Live ι :=
  (made.filter (·.raw.length = live.raw.length)).getD live

/-- What is read has not changed since the length has. -/
def Settled : Option (Live ι) → Live ι → List (Act ι) → Prop
  | _, _, [] => True
  | made, _, .change live :: as => Settled made live as
  | made, live, .read r :: as =>
    r.of (latest made live).filtered = r.of live.filtered ∧ Settled (latest made live) live as

theorem always_exact_iff (made : Option (Live ι)) (live : Live ι) (as : List (Act ι)) :
    Always step Exact ⟨live, made.map fun c => (c.raw.length, c.filtered)⟩ as ↔
      Settled made live as := by
  induction as generalizing made live with
  | nil => rfl
  | cons a as ih =>
    cases a with
    | change live' => exact (and_iff_right trivial).trans (ih made live')
    | read r =>
      obtain ⟨hitems, hlength⟩ : State.items ⟨live, made.map fun c => (c.raw.length, c.filtered)⟩ =
          (latest made live).filtered ∧ (latest made live).raw.length = live.raw.length := by
        cases made with
        | none => exact ⟨rfl, rfl⟩
        | some c => grind [State.items, latest]
      rw [always_cons, Exact, step, Settled, hitems, ← ih, map_some, hlength]

/-- The reads of a view are exact if and only if nothing that is read has changed while the
    collection has kept its length. -/
theorem reads_exact_iff (live : Live ι) (as : List (Act ι)) :
    Always step Exact ⟨live, none⟩ as ↔ Settled none live as :=
  always_exact_iff none live as

/-- An element takes the place of another, and the view still has the other. -/
theorem not_exact_of_replaced : ¬ Always step Exact ⟨⟨[1], fun _ => true⟩, none⟩
    [.read .length, .change ⟨[2], fun _ => true⟩, .read (.index 0)] := by
  rintro ⟨-, -, h, -⟩
  cases h

end ZeroProxy.Membrane.FilteredCollection
