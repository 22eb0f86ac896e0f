import ZeroProxy.Text.Basic

/-!
# Writes inside `with`

A dangerous name that is written inside `with` statements belongs to the innermost object that
owns it, or to the membrane's global. `with_set_chain` and `with_assign_chain` emit a call for each
object, with the rest of the chain as its fallback.
-/

namespace ZeroProxy.Rewriter.With

open List Text

/-- What can be seen of an assignment. -/
inductive Event (V : Type)
  /-- The right-hand side is evaluated. -/
  | evaluated (v : V)
  /-- A value is written to an object, or to the membrane's global. -/
  | wrote (target : Option Text) (v : V)

/-- What the code of the page does: its right-hand side, and the objects under their temporaries. -/
structure Page (σ V : Type) where
  rhs : σ → V × σ
  /-- `scopeHas`. -/
  owns : Text → σ → Bool
  read : Option Text → σ → V × σ
  write : Option Text → V → σ → σ

variable {σ V : Type} (page : Page σ V)

namespace Page

def put (target : Option Text) (v : V) (s : σ) : List (Event V) × σ :=
  ([.wrote target v], page.write target v s)

def evaluating (k : V → σ → List (Event V) × σ) (s : σ) : List (Event V) × σ :=
  let r := k (page.rhs s).1 (page.rhs s).2
  (.evaluated (page.rhs s).1 :: r.1, r.2)

/-- `__zp_with_set(t, name, (value), fallback)`. -/
def withSet (t : Text) (fallback : V → σ → List (Event V) × σ) : σ → List (Event V) × σ :=
  page.evaluating fun v s => if page.owns t s then page.put (some t) v s else fallback v s

/-- What `with_set_chain` emits, the outermost object first: the fallback takes a value and
    evaluates the right-hand side again. -/
def setChain (temps : List Text) : σ → List (Event V) × σ :=
  temps.foldl (fun e t => page.withSet t fun _ => e) (page.evaluating (page.put none))

/-- `__zp_assign(target, name, op, () => value)`. A logical operator may keep the value. -/
def assign (op : V → Option (V → V)) (target : Option Text) (s : σ) : List (Event V) × σ :=
  match op (page.read target s).1 with
  | none => ([], (page.read target s).2)
  | some f => page.evaluating (fun v => page.put target (f v)) (page.read target s).2

/-- What `with_assign_chain` emits. -/
def assignChain (op : V → Option (V → V)) (temps : List Text) : σ → List (Event V) × σ :=
  temps.foldl (fun e t s => if page.owns t s then page.assign op (some t) s else e s)
    (page.assign op none)

/-- The innermost object that owns the name. -/
def owner (temps : List Text) (s : σ) : Option Text := temps.reverse.find? (page.owns · s)

theorem owner_concat (temps : List Text) (t : Text) (s : σ) :
    page.owner (temps ++ [t]) s = if page.owns t s then some t else page.owner temps s := by
  rw [owner, reverse_concat, find?_cons]
  cases page.owns t s <;> rfl

theorem setChain_concat (temps : List Text) (t : Text) :
    page.setChain (temps ++ [t]) = page.withSet t fun _ => page.setChain temps :=
  foldl_concat ..

theorem head?_setChain (temps : List Text) (s : σ) :
    (page.setChain temps s).1.head? = some (.evaluated (page.rhs s).1) := by
  rcases eq_nil_or_concat temps with rfl | ⟨ts, t, rfl⟩
  · rfl
  · rw [concat_eq_append, setChain_concat]
    rfl

/-- An assignment evaluates its right-hand side once and then writes to the innermost owner, exactly
    if the innermost object owns the name. A compound assignment always does. -/
theorem chains_iff (temps : List Text) (s : σ) :
    (page.setChain temps s = page.evaluating (fun v s => page.put (page.owner temps s) v s) s ↔
      ∀ t ∈ temps.getLast?, page.owns t (page.rhs s).2) ∧
    ∀ op, page.assignChain op temps s = page.assign op (page.owner temps s) s := by
  constructor
  · rcases eq_nil_or_concat temps with rfl | ⟨ts, t, rfl⟩
    · exact iff_of_true rfl nofun
    rw [concat_eq_append, setChain_concat, withSet, evaluating, evaluating, owner_concat]
    simp only [getLast?_concat, Option.mem_some_iff, forall_eq']
    cases hown : page.owns t (page.rhs s).2 with
    | true => exact iff_of_true rfl rfl
    | false =>
      -- The fallback begins with another evaluation.
      refine iff_of_false (fun h => ?_) Bool.false_ne_true
      have hhead := page.head?_setChain ts (page.rhs s).2
      have hevents := congrArg (fun r => r.1.tail.head?) h
      simp [hhead, put] at hevents
  · intro op
    induction temps using reverseRecOn with
    | nil => rfl
    | append_singleton ts t ih =>
      rw [assignChain, foldl_concat, owner_concat]
      split_ifs
      · rfl
      · exact ih

end Page

/-- `with (o) location = n++`, where `o` does not own `location`. -/
def counting : Page Nat Nat :=
  ⟨fun n => (n, n + 1), fun _ _ => false, fun _ n => (n, n), fun _ _ n => n⟩

/-- The right-hand side is evaluated twice, and the second value is written. -/
theorem evaluated_twice : (counting.setChain [['o']] 0).1 =
    [.evaluated 0, .evaluated 1, .wrote none 1] := rfl

end ZeroProxy.Rewriter.With
