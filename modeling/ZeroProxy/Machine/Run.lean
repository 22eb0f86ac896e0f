import Mathlib.Data.List.Basic

/-!
# Runs of a machine

A machine has a state and a function that says what an action does to it. A run is a list of
actions from a state.

A process reads symbols from one stream and writes symbols to another. Two of them are connected
by two queues. A symbol is read or written at a time, in any order that the queues allow, so that
the pieces in which a stream arrives are pieces of a run.
-/

namespace ZeroProxy.Machine

section

open List

/-! ## Labelled steps

Steps that are not determined by the state: a label says what was done and what came of it. -/

section Labelled

variable {S T L : Type*} {step : S → L → S → Prop} {step' : T → L → T → Prop}

/-- A sequence of labelled steps. -/
inductive Trace (step : S → L → S → Prop) : S → List L → S → Prop
  | nil (s : S) : Trace step s [] s
  | cons {s t u : S} {l : L} {ls : List L} : step s l t → Trace step t ls u → Trace step s (l :: ls) u

theorem Trace.invariant {I : S → Prop} {s t : S} {ls : List L} (hs : I s)
    (h : ∀ s l t, I s → step s l t → I t) (hrun : Trace step s ls t) : I t := by
  induction hrun with
  | nil s => exact hs
  | cons hstep _ ih => exact ih (h _ _ _ hs hstep)

theorem Trace.map {f : S → T} {s t : S} {ls : List L}
    (h : ∀ l ∈ ls, ∀ s t, step s l t → step' (f s) l (f t)) (hrun : Trace step s ls t) :
    Trace step' (f s) ls (f t) := by
  induction hrun with
  | nil s => exact .nil (f s)
  | cons hstep _ ih =>
    exact .cons (h _ (.head _) _ _ hstep)
      (ih fun l hl => h l (.tail _ hl))

end Labelled

/-! ## Steps in any order

When any two different steps of a state can be followed by one step each to a common state, all
complete runs of a system have the same length and the same end. So it is enough to give one of
them. -/

section Order

variable {S : Type*} {r : S → S → Prop} {s t u : S} {m n : Nat}

/-- So many steps lead from a state to another. -/
inductive Steps (r : S → S → Prop) : Nat → S → S → Prop
  | refl (s : S) : Steps r 0 s s
  | head {s t u : S} {n : Nat} : r s t → Steps r n t u → Steps r (n + 1) s u

/-- Some steps lead there. -/
def Reaches (r : S → S → Prop) (s t : S) : Prop := ∃ n, Steps r n s t

theorem Reaches.refl (s : S) : Reaches r s s := ⟨0, .refl s⟩

theorem Reaches.head (h : r s t) : Reaches r t u → Reaches r s u
  | ⟨n, h'⟩ => ⟨n + 1, .head h h'⟩

/-- No step leads on. -/
def Stuck (r : S → S → Prop) (s : S) : Prop := ∀ t, ¬r s t

/-- Two different steps of a state lead to a common one. -/
def Diamond (r : S → S → Prop) : Prop :=
  ∀ s t t', r s t → r s t' → t = t' ∨ ∃ u, r t u ∧ r t' u

theorem Diamond.step (h : Diamond r) (hrun : Steps r n s u) (hend : Stuck r u) (hstep : r s t) :
    ∃ m, n = m + 1 ∧ Steps r m t u := by
  induction hrun generalizing t with
  | refl s => exact absurd hstep (hend t)
  | @head s t' u n hstep' hrest ih =>
    rcases h s t t' hstep hstep' with rfl | ⟨v, htv, htv'⟩
    · exact ⟨n, rfl, hrest⟩
    · obtain ⟨m, rfl, hm⟩ := ih hend htv'
      exact ⟨m + 1, rfl, .head htv hm⟩

theorem Diamond.steps (h : Diamond r) (hrun : Steps r n s u) (hend : Stuck r u)
    (hsteps : Steps r m s t) : m ≤ n ∧ Steps r (n - m) t u := by
  induction hsteps generalizing n with
  | refl s => exact ⟨Nat.zero_le n, hrun⟩
  | head hstep _ ih =>
    obtain ⟨n', rfl, hrest⟩ := h.step hrun hend hstep
    obtain ⟨hle, hsteps⟩ := ih hrest
    exact ⟨Nat.succ_le_succ hle, by rwa [Nat.add_sub_add_right]⟩

/-- All runs are bounded and can be continued to `u`, where nothing is left to do. -/
def Ends (r : S → S → Prop) (s u : S) : Prop :=
  Stuck r u ∧ ∃ n, ∀ m t, Steps r m s t → m ≤ n ∧ Steps r (n - m) t u

theorem Diamond.ends (h : Diamond r) (hrun : Reaches r s u) (hend : Stuck r u) : Ends r s u := by
  obtain ⟨n, hn⟩ := hrun
  exact ⟨hend, n, fun m t hsteps => h.steps hn hend hsteps⟩

end Order

/-! ## Actions -/

variable {S A : Type*} (step : S → A → S)

/-- The state after a list of actions. -/
def run (s : S) (as : List A) : S := as.foldl step s

@[simp] theorem run_nil (s : S) : run step s [] = s := rfl

@[simp] theorem run_cons (s : S) (a : A) (as : List A) :
    run step s (a :: as) = run step (step s a) as := rfl

theorem run_append (s : S) (as bs : List A) :
    run step s (as ++ bs) = run step (run step s as) bs := foldl_append

/-- `P` holds of every action of the run and of the state that the action finds. -/
def Always (P : S → A → Prop) : S → List A → Prop
  | _, [] => True
  | s, a :: as => P s a ∧ Always P (step s a) as

variable {step} {P Q : S → A → Prop} {s : S} {as bs : List A} {a : A}

@[simp] theorem always_nil : Always step P s [] := trivial

@[simp] theorem always_cons :
    Always step P s (a :: as) ↔ P s a ∧ Always step P (step s a) as := Iff.rfl

variable {I : S → Prop}

theorem run_induction (hs : I s) (hstep : ∀ s, ∀ a ∈ as, I s → I (step s a)) :
    I (run step s as) := by
  induction as generalizing s with
  | nil => exact hs
  | cons a as ih =>
    exact ih (hstep s a (.head _) hs) fun s b hb => hstep s b (.tail _ hb)

theorem always_of_invariant (hs : I s) (hstep : ∀ s a, I s → I (step s a))
    (h : ∀ s, ∀ a ∈ as, I s → P s a) : Always step P s as := by
  induction as generalizing s with
  | nil => trivial
  | cons a as ih =>
    exact ⟨h s a (.head _) hs, ih (hstep s a hs) fun s b hb => h s b (.tail _ hb)⟩

theorem always_or_exists_first (step : S → A → S) (P : S → A → Prop) (s : S) (as : List A) :
    Always step P s as ∨
      ∃ before a after, as = before ++ a :: after ∧ Always step P s before ∧
        ¬P (run step s before) a := by
  induction as generalizing s with
  | nil => exact .inl trivial
  | cons a as ih =>
    by_cases ha : P s a
    · rcases ih (step s a) with h | ⟨before, b, after, rfl, hbefore, hb⟩
      · exact .inl ⟨ha, h⟩
      · exact .inr ⟨a :: before, b, after, rfl, ⟨ha, hbefore⟩, hb⟩
    · exact .inr ⟨[], a, as, rfl, trivial, ha⟩

end

section

open List Option

variable {β α γ ε : Type*}

/-- A process over streams of `β` with a result in `α`. -/
inductive Process (β α : Type*)
  | ret (a : α)
  | recv (k : β → Process β α)
  | send (b : β) (p : Process β α)

namespace Process

/-- One process after the other. -/
def bind : Process β α → (α → Process β γ) → Process β γ
  | .ret a, f => f a
  | .recv k, f => .recv fun b => (k b).bind f
  | .send b p, f => .send b (p.bind f)

/-- Go on with a value, unless it is an error. -/
def orFail (x : Except ε α) (f : α → Process β (Except ε γ)) : Process β (Except ε γ) :=
  match x with
  | .ok a => f a
  | .error e => .ret (.error e)

/-- One process after the other, unless the first one fails. -/
def andThen (p : Process β (Except ε α)) (f : α → Process β (Except ε γ)) :
    Process β (Except ε γ) := p.bind fun x => orFail x f

/-- Read `n` symbols. -/
def take : Nat → (List β → Process β α) → Process β α
  | 0, k => k []
  | n + 1, k => .recv fun b => take n fun bs => k (b :: bs)

/-- Write symbols. -/
def put : List β → Process β α → Process β α
  | [], p => p
  | b :: bs, p => .send b (put bs p)

@[simp] theorem ret_bind (a : α) (f : α → Process β γ) : (ret a).bind f = f a := rfl

@[simp] theorem orFail_ok (a : α) (f : α → Process β (Except ε γ)) : orFail (.ok a) f = f a := rfl

@[simp] theorem orFail_error (e : ε) (f : α → Process β (Except ε γ)) :
    orFail (.error e) f = ret (.error e) := rfl

@[simp] theorem take_bind (n : Nat) (k : List β → Process β α) (f : α → Process β γ) :
    (take n k).bind f = take n fun bs => (k bs).bind f := by
  induction n generalizing k with
  | zero => rfl
  | succ n ih =>
    rw [take, take, bind]
    simp [ih]

@[simp] theorem put_bind (bs : List β) (p : Process β α) (f : α → Process β γ) :
    (put bs p).bind f = put bs (p.bind f) := by
  induction bs with
  | nil => rfl
  | cons b bs ih => rw [put, put, bind, ih]

theorem bind_assoc {δ : Type*} (p : Process β α) (f : α → Process β γ) (g : γ → Process β δ) :
    (p.bind f).bind g = p.bind fun a => (f a).bind g := by
  induction p with
  | ret a => rfl
  | recv k ih =>
    rw [bind, bind, bind]
    simp [ih]
  | send b p ih => rw [bind, bind, bind, ih]

theorem andThen_assoc {δ : Type*} (p : Process β (Except ε α)) (f : α → Process β (Except ε γ))
    (g : γ → Process β (Except ε δ)) :
    (p.andThen f).andThen g = p.andThen fun a => (f a).andThen g := by
  rw [andThen, andThen, bind_assoc, andThen]
  congr 1
  funext x
  cases x <;> rfl

/-! ## On a stream that is given -/

/-- The result of a process on a stream, what it writes, and what it leaves of the stream. There is
    no result when the stream ends before the process does. -/
def exec : Process β α → List β → Option (α × List β × List β)
  | .ret a, input => some (a, [], input)
  | .recv _, [] => none
  | .recv k, b :: input => (k b).exec input
  | .send b p, input => (p.exec input).map fun r => (r.1, b :: r.2.1, r.2.2)

@[simp] theorem exec_ret (a : α) (input : List β) : (ret a).exec input = some (a, [], input) := rfl

theorem exec_take (n : Nat) (k : List β → Process β α) (input : List β) : (take n k).exec input =
      if n ≤ input.length then (k (input.take n)).exec (input.drop n) else none := by
  induction n generalizing k input with
  | zero => rw [take, if_pos (Nat.zero_le _), take_zero, drop_zero]
  | succ n ih =>
    cases input with
    | nil => rfl
    | cons b input =>
      rw [take, exec, ih]
      simp

variable {n : Nat}

theorem exec_take_append {bs : List β} (h : bs.length = n) (k : List β → Process β α)
    (input : List β) : (take n k).exec (bs ++ input) = (k bs).exec input := by
  rw [exec_take, if_pos (by rw [length_append]; omega), ← h, take_left, drop_left]

theorem exec_put (bs : List β) (p : Process β α) (input : List β) :
    (put bs p).exec input = (p.exec input).map fun r => (r.1, bs ++ r.2.1, r.2.2) := by
  induction bs with
  | nil =>
    rw [put]
    cases p.exec input <;> rfl
  | cons b bs ih =>
    rw [put, exec, ih, Option.map_map]
    rfl

theorem exec_bind (p : Process β α) (f : α → Process β γ) (input : List β) :
    (p.bind f).exec input = (p.exec input).bind fun r =>
      ((f r.1).exec r.2.2).map fun r' => (r'.1, r.2.1 ++ r'.2.1, r'.2.2) := by
  induction p generalizing input with
  | ret a =>
    rw [bind, exec, bind_some]
    cases (f a).exec input <;> rfl
  | recv k ih =>
    cases input with
    | nil => rfl
    | cons b input => exact ih b input
  | send b p ih =>
    rw [bind, exec, exec, ih, map_bind, bind_map]
    congr 1
    funext r
    rw [Function.comp_apply, Function.comp_apply, Option.map_map]
    rfl

variable {p : Process β (Except ε α)} {input : List β}

theorem exec_andThen_ok {a : α} {out rest : List β}
    (h : p.exec input = some (.ok a, out, rest)) (f : α → Process β (Except ε γ)) :
    (p.andThen f).exec input =
      ((f a).exec rest).map fun r => (r.1, out ++ r.2.1, r.2.2) := by
  rw [andThen, exec_bind, h]
  rfl

theorem exec_andThen_error {e : ε} {out rest : List β}
    (h : p.exec input = some (.error e, out, rest)) (f : α → Process β (Except ε γ)) :
    (p.andThen f).exec input = some (.error e, out, rest) := by
  rw [andThen, exec_bind, h, bind_some, orFail_error, exec_ret, map_some, append_nil]

variable {r : α × List β × List β} {k : List β → Process β α}

theorem exec_take_eq_some (h : (take n k).exec input = some r) :
    ∃ bs input', input = bs ++ input' ∧ bs.length = n ∧ (k bs).exec input' = some r := by
  rw [exec_take] at h
  split at h
  · rename_i hn
    exact ⟨input.take n, input.drop n, (take_append_drop n input).symm,
      by rw [length_take]; omega, h⟩
  · cases h

theorem exec_put_eq_some {bs : List β} {p : Process β α} (h : (put bs p).exec input = some r) :
    ∃ out, p.exec input = some (r.1, out, r.2.2) ∧ r.2.1 = bs ++ out := by
  rw [exec_put] at h
  obtain ⟨⟨a, out, rest⟩, hp, rfl⟩ := map_eq_some_iff.1 h
  exact ⟨out, hp, rfl⟩

/-- A process that does not write. -/
def Silent : Process β α → Prop
  | .ret _ => True
  | .recv k => ∀ b, (k b).Silent
  | .send _ _ => False

theorem silent_take (h : ∀ bs, (k bs).Silent) : (take n k).Silent := by
  induction n generalizing k with
  | zero => exact h []
  | succ n ih => exact fun b => ih fun bs => h (b :: bs)

theorem silent_bind {p : Process β α} {f : α → Process β γ} (hp : p.Silent)
    (hf : ∀ a, (f a).Silent) : (p.bind f).Silent := by
  induction p with
  | ret a => exact hf a
  | recv k ih => exact fun b => ih b (hp b)
  | send b p => cases hp

theorem silent_andThen {f : α → Process β (Except ε γ)}
    (hp : p.Silent) (hf : ∀ a, (f a).Silent) : (p.andThen f).Silent :=
  silent_bind hp fun x => by
    cases x with
    | ok a => exact hf a
    | error e => trivial

theorem Silent.out_eq_nil {p : Process β α} (hp : p.Silent) (h : p.exec input = some r) :
    r.2.1 = [] := by
  induction p generalizing input with
  | ret a =>
    cases h
    rfl
  | recv k ih =>
    cases input with
    | nil => cases h
    | cons b input => exact ih b (hp b) h
  | send b p => cases hp

end Process

/-! ## Two processes -/

/-- Two processes, and what each has written that the other has not read. -/
structure Network (β α γ : Type*) where
  left : Process β α
  right : Process β γ
  toRight : List β
  toLeft : List β

namespace Network

/-- One of the processes reads or writes a symbol. -/
inductive Step : Network β α γ → Network β α γ → Prop
  | leftSend (b : β) (p : Process β α) (q : Process β γ) (x y : List β) :
    Step ⟨.send b p, q, x, y⟩ ⟨p, q, x ++ [b], y⟩
  | leftRecv (k : β → Process β α) (b : β) (q : Process β γ) (x y : List β) :
    Step ⟨.recv k, q, x, b :: y⟩ ⟨k b, q, x, y⟩
  | rightSend (b : β) (p : Process β α) (q : Process β γ) (x y : List β) :
    Step ⟨p, .send b q, x, y⟩ ⟨p, q, x, y ++ [b]⟩
  | rightRecv (k : β → Process β γ) (b : β) (p : Process β α) (x y : List β) :
    Step ⟨p, .recv k, b :: x, y⟩ ⟨p, k b, x, y⟩

theorem diamond_step : Diamond (Step (β := β) (α := α) (γ := γ)) := by
  intro s t t' h h'
  cases h with
  | leftSend b p q x y =>
    cases h' with
    | leftSend => exact .inl rfl
    | rightSend c _ q => exact .inr ⟨_, .rightSend c p q _ y, .leftSend b p q x _⟩
    | rightRecv k c => exact .inr ⟨_, .rightRecv k c p _ y, .leftSend b p _ _ y⟩
  | leftRecv k b q x y =>
    cases h' with
    | leftRecv => exact .inl rfl
    | rightSend c _ q => exact .inr ⟨_, .rightSend c _ q x y, .leftRecv k b q x _⟩
    | rightRecv k' c => exact .inr ⟨_, .rightRecv k' c _ _ y, .leftRecv k b _ _ y⟩
  | rightSend b p q x y =>
    cases h' with
    | leftSend c p => exact .inr ⟨_, .leftSend c p q x _, .rightSend b p q _ y⟩
    | leftRecv k c => exact .inr ⟨_, .leftRecv k c q x _, .rightSend b _ q x _⟩
    | rightSend => exact .inl rfl
  | rightRecv k b p x y =>
    cases h' with
    | leftSend c p => exact .inr ⟨_, .leftSend c p _ x y, .rightRecv k b p _ y⟩
    | leftRecv k' c => exact .inr ⟨_, .leftRecv k' c _ x _, .rightRecv k b _ x _⟩
    | rightRecv => exact .inl rfl

variable {p : Process β α} {q : Process β γ} {x y : List β} {s : Network β α γ}

theorem reaches_left_put (bs : List β) (h : Reaches Step ⟨p, q, x ++ bs, y⟩ s) :
    Reaches Step ⟨.put bs p, q, x, y⟩ s := by
  induction bs generalizing x with
  | nil => rwa [append_nil] at h
  | cons b bs ih => exact .head (.leftSend b _ q x y) (ih (by rwa [append_assoc]))

theorem reaches_right_put (bs : List β) (h : Reaches Step ⟨p, q, x, y ++ bs⟩ s) :
    Reaches Step ⟨p, .put bs q, x, y⟩ s := by
  induction bs generalizing y with
  | nil => rwa [append_nil] at h
  | cons b bs ih => exact .head (.rightSend b p _ x y) (ih (by rwa [append_assoc]))

theorem reaches_left_take {w : List β} {n : Nat} (hn : w.length = n)
    {k : List β → Process β α} (h : Reaches Step ⟨k w, q, x, y⟩ s) :
    Reaches Step ⟨.take n k, q, x, w ++ y⟩ s := by
  subst hn
  induction w generalizing k with
  | nil => exact h
  | cons b w ih => exact .head (.leftRecv _ b q x _) (ih h)

theorem reaches_right_take {w : List β} {n : Nat} (hn : w.length = n)
    {k : List β → Process β γ} (h : Reaches Step ⟨p, k w, x, y⟩ s) :
    Reaches Step ⟨p, .take n k, w ++ x, y⟩ s := by
  subst hn
  induction w generalizing k with
  | nil => exact h
  | cons b w ih => exact .head (.rightRecv _ b p _ y) (ih h)

theorem ends_of_reaches {a : α} {c : γ} (h : Reaches Step s ⟨.ret a, .ret c, x, y⟩) :
    Ends Step s ⟨.ret a, .ret c, x, y⟩ := diamond_step.ends h nofun

end Network

end

end ZeroProxy.Machine
