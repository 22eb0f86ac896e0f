import Mathlib.Logic.Basic

/-!
# Programs that ask, and remembered answers

A program asks questions. What the answer to a question is depends on a state that the program
changes as it goes. A memory keeps answers, and is asked first; nothing tells it that the state
has changed.
-/

namespace ZeroProxy

/-- A program with questions in `Q`, answers in `A`, changes in `E` and results in `α`. -/
inductive Program (Q A E α : Type)
  | done (a : α)
  | ask (q : Q) (k : A → Program Q A E α)
  | tell (e : E) (k : Program Q A E α)

namespace Program

variable {Q A E α β S M : Type}

/-- One program after another. -/
def andThen : Program Q A E α → (α → Program Q A E β) → Program Q A E β
  | done a, f => f a
  | ask q k, f => ask q fun a => (k a).andThen f
  | tell e k, f => tell e (k.andThen f)

/-- A question, the state in which it was put, and its answer. -/
structure Asked (Q A S : Type) where
  question : Q
  state : S
  answer : A

/-- Where answers come from, and what changes do. -/
structure World (Q A E S : Type) where
  answer : S → Q → A
  change : E → S → S

/-- A memory: what it has to a question, and what it is after an answer. -/
structure Memory (Q A M : Type) where
  lookup : M → Q → Option A
  record : M → Q → A → M

variable (w : World Q A E S) (mem : Memory Q A M)

/-- A run without a memory. -/
def fresh : S → Program Q A E α → List (Asked Q A S) × α
  | _, done a => ([], a)
  | s, ask q k =>
    let rest := fresh s (k (w.answer s q))
    (⟨q, s, w.answer s q⟩ :: rest.1, rest.2)
  | s, tell e k => fresh (w.change e s) k

/-- A run with a memory. -/
def remembered : M → S → Program Q A E α → List (Asked Q A S) × α
  | _, _, done a => ([], a)
  | m, s, ask q k =>
    let a := (mem.lookup m q).getD (w.answer s q)
    let rest := remembered (mem.record m q a) s (k a)
    (⟨q, s, a⟩ :: rest.1, rest.2)
  | m, s, tell e k => remembered m (w.change e s) k

/-- Every answer was right when it was given. -/
def Faithful (l : List (Asked Q A S)) : Prop := ∀ x ∈ l, x.answer = w.answer x.state x.question

/-- A memory that is kept up along the way has no other answer than those given. -/
def Consistent : M → List (Asked Q A S) → Prop
  | _, [] => True
  | m, x :: l =>
    (∀ a, mem.lookup m x.question = some a → a = x.answer) ∧
      Consistent (mem.record m x.question x.answer) l

/-- The memory after the answers in `l`. -/
def after (m : M) (l : List (Asked Q A S)) : M :=
  l.foldl (fun m x => mem.record m x.question x.answer) m

theorem consistent_iff {m : M} {l : List (Asked Q A S)} :
    Consistent mem m l ↔ ∀ before x rest, l = before ++ x :: rest →
      ∀ a, mem.lookup (after mem m before) x.question = some a → a = x.answer := by
  induction l generalizing m with
  | nil => exact iff_of_true trivial fun before x rest h => by simp at h
  | cons y l ih =>
    rw [Consistent, ih]
    constructor
    · rintro ⟨hy, hl⟩ before x rest h
      cases before with
      | nil =>
        obtain ⟨rfl, rfl⟩ := List.cons.inj h
        exact hy
      | cons z before =>
        obtain ⟨rfl, hrest⟩ := List.cons.inj h
        exact hl before x rest hrest
    · intro h
      refine ⟨h [] y l rfl, fun before x rest hrest => ?_⟩
      exact h (y :: before) x rest (by rw [hrest]; rfl)

theorem getD_eq_iff {a : A} {o : Option A} : o.getD a = a ↔ ∀ b, o = some b → b = a := by
  cases o with
  | none => exact iff_of_true rfl nofun
  | some b => exact ⟨fun h c hc => Option.some.inj hc ▸ h, fun h => h b rfl⟩

theorem remembered_faithful_iff (p : Program Q A E α) (m : M) (s : S) :
    Faithful w (remembered w mem m s p).1 ↔ Consistent mem m (fresh w s p).1 := by
  induction p generalizing m s with
  | done a => exact iff_of_true nofun trivial
  | ask q k ih =>
    rw [Faithful, remembered, fresh, List.forall_mem_cons, Consistent, ← getD_eq_iff]
    refine and_congr_right fun ha => ?_
    dsimp only at ha ⊢
    rw [ha]
    exact ih _ _ _
  | tell e k ih => exact ih m (w.change e s)

end Program

end ZeroProxy
