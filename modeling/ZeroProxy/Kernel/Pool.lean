import ZeroProxy.Machine.Run
import ZeroProxy.Store.Keyed
import ZeroProxy.Text.Basic

/-!
# The pool of idle connections

The kernel keeps HTTP/1.1 connections that may be used again, by the origin that they reach and by
the isolation key that they were opened with (`pool.rs`).
-/

namespace ZeroProxy.Kernel.Pool

open Keyed List Machine Text

/-! ## The operations -/

/-- What a connection is kept under. -/
structure PoolKey where
  scheme : Text
  host : Text
  port : UInt16
  isolationKey : Text
  deriving DecidableEq

/-- `MAX_IDLE_PER_KEY`. -/
def maxIdlePerKey : Nat := 6

/-- `MAX_POOL_KEYS`. -/
def maxPoolKeys : Nat := 64

abbrev Buckets (γ : Type*) := List (PoolKey × List γ)

section Operations

variable {γ : Type*}

/-- The connections for a key. -/
def bucket (key : PoolKey) (p : Buckets γ) : List γ :=
  ((lookup Prod.fst key p).map Prod.snd).getD []

/-- The connections for a key become `q`. -/
def store (key : PoolKey) (q : List γ) (p : Buckets γ) : Buckets γ :=
  put Prod.fst (fun _ => (key, q)) (key, q) p

/-- `take`: the connection that was put last, and the pool without it. -/
def take (key : PoolKey) (p : Buckets γ) : Option γ × Buckets γ := match lookup Prod.fst key p with
  | none => (none, p)
  | some (_, q) =>
    (q.getLast?, if q.dropLast.isEmpty then erase Prod.fst key p else store key q.dropLast p)

/-- A full pool gives up a key for a new one. Which of its keys a map lists first is not
    specified: it is the one at `pick`. -/
def evict (pick : Nat) (key : PoolKey) (p : Buckets γ) : Buckets γ :=
  if key ∉ p.map Prod.fst ∧ maxPoolKeys ≤ p.length then
    match (p.map Prod.fst)[pick % p.length]? with
    | some old => erase Prod.fst old p
    | none => p
  else p

/-- A connection is put back. -/
def put (pick : Nat) (key : PoolKey) (conn : γ) (p : Buckets γ) : Buckets γ :=
  let p := evict pick key (p.filter fun e => !e.2.isEmpty)
  let q := bucket key p
  let q := if maxIdlePerKey ≤ q.length then q.tail else q
  store key (q ++ [conn]) p

/-- The pool is emptied. -/
def clear (_ : Buckets γ) : Buckets γ := []

end Operations

/-! ## What happened -/

variable {γ : Type*}

/-- An operation on the pool. -/
inductive Op (γ : Type*)
  | take (key : PoolKey)
  | put (pick : Nat) (key : PoolKey) (conn : γ)
  | clear

/-- The pool, and what happened to it. The connections in it carry the number of their `put`. -/
structure Ledger (γ : Type*) where
  pool : Buckets (Nat × γ)
  /-- What was put, in order. -/
  puts : List (PoolKey × γ)
  /-- The numbers of what was taken. -/
  taken : List Nat
  /-- How much had been put when the pool was cleared last. -/
  cleared : Nat

def Ledger.empty : Ledger γ := ⟨[], [], [], 0⟩

/-- An operation is carried out. -/
def Ledger.step (s : Ledger γ) : Op γ → Ledger γ
  | .take key =>
    { s with
      pool := (take key s.pool).2
      taken := s.taken ++ ((take key s.pool).1.map Prod.fst).toList }
  | .put pick key conn =>
    { s with
      pool := put pick key (s.puts.length, conn) s.pool
      puts := s.puts ++ [(key, conn)] }
  | .clear => { s with pool := clear s.pool, cleared := s.puts.length }

/-! ## Buckets -/

section Buckets

variable {p : Buckets γ} {key k : PoolKey} {q : List γ}

theorem mem_store (hp : Keyed.Distinct Prod.fst p) {e : PoolKey × List γ} :
    e ∈ store key q p ↔ e = (key, q) ∨ (e ∈ p ∧ e.1 ≠ key) := by
  rw [store, mem_put hp]
  cases lookup Prod.fst key p <;> rfl

theorem distinct_store (hp : Keyed.Distinct Prod.fst p) : Keyed.Distinct Prod.fst (store key q p) :=
  distinct_put (fun _ _ => rfl) hp

theorem length_store : (store key q p).length =
    if key ∈ p.map Prod.fst then p.length else p.length + 1 :=
  length_put fun _ _ => rfl

theorem evict_sublist (pick : Nat) (key : PoolKey) (p : Buckets γ) :
    (evict pick key p).Sublist p := by
  unfold evict
  split
  · split
    · exact eraseP_sublist
    · exact List.Sublist.refl p
  · exact List.Sublist.refl p

theorem length_evict (hle : p.length ≤ maxPoolKeys) (pick : Nat)
    (hkey : key ∉ (evict pick key p).map Prod.fst) : (evict pick key p).length < maxPoolKeys := by
  rw [evict] at hkey ⊢
  split_ifs at hkey ⊢ with hfull
  · have hpos : 0 < p.length := lt_of_lt_of_le (by decide) hfull.2
    have hlt : pick % p.length < (p.map Prod.fst).length := by
      rw [length_map]
      exact Nat.mod_lt _ hpos
    rw [getElem?_eq_getElem hlt] at hkey ⊢
    have hmem : (p.map Prod.fst)[pick % p.length] ∈ p.map Prod.fst := getElem_mem hlt
    obtain ⟨e, he, hold⟩ := mem_map.1 hmem
    dsimp only
    rw [erase, length_eraseP_of_mem he (by simpa using hold)]
    omega
  · rw [not_and, not_le] at hfull
    exact hfull hkey

theorem mem_of_bucket (h : bucket key p ≠ []) : (key, bucket key p) ∈ p := by
  rw [bucket] at h ⊢
  cases hlookup : lookup Prod.fst key p with
  | none =>
    rw [hlookup] at h
    exact absurd rfl h
  | some x =>
    obtain rfl : x.1 = key := key_of_lookup hlookup
    exact mem_of_lookup hlookup

theorem fst_take (key : PoolKey) (p : Buckets γ) : (take key p).1 = (bucket key p).getLast? := by
  rw [take, bucket]
  cases lookup Prod.fst key p <;> rfl

theorem take_cases (key : PoolKey) (p : Buckets γ) :
    (take key p = (none, p) ∧ lookup Prod.fst key p = none) ∨
    ∃ q, lookup Prod.fst key p = some (key, q) ∧ (take key p).1 = q.getLast? ∧
      (take key p).2 = if q.dropLast.isEmpty then erase Prod.fst key p
        else store key q.dropLast p := by
  rw [take]
  cases h : lookup Prod.fst key p with
  | none => exact .inl ⟨rfl, rfl⟩
  | some x =>
    obtain ⟨k, q⟩ := x
    obtain rfl : k = key := key_of_lookup h
    exact .inr ⟨q, rfl, rfl, rfl⟩

end Buckets

/-! ## The invariant -/

namespace Ledger

/-- What holds of a bucket: it is neither empty nor too long, and each of its connections was put
    under its key, in order, has not been taken, and was put after the pool was last cleared. -/
structure Good (s : Ledger γ) (key : PoolKey) (q : List (Nat × γ)) : Prop where
  ne_nil : q ≠ []
  length_le : q.length ≤ maxIdlePerKey
  pairwise : q.Pairwise fun x y => x.1 < y.1
  put : ∀ x ∈ q, s.puts[x.1]? = some (key, x.2)
  not_taken : ∀ x ∈ q, x.1 ∉ s.taken
  cleared : ∀ x ∈ q, s.cleared ≤ x.1

/-- What holds of the pool at any time. -/
structure Inv (s : Ledger γ) : Prop where
  distinct : Keyed.Distinct Prod.fst s.pool
  length_le : s.pool.length ≤ maxPoolKeys
  good : ∀ e ∈ s.pool, Good s e.1 e.2
  taken_lt : ∀ n ∈ s.taken, n < s.puts.length
  cleared_le : s.cleared ≤ s.puts.length

theorem inv_empty : Inv (empty : Ledger γ) where
  distinct := distinct_nil
  length_le := Nat.zero_le _
  good := by simp [empty]
  taken_lt := by simp [empty]
  cleared_le := le_refl 0

variable {s : Ledger γ}

theorem Good.eq_concat {key : PoolKey} {q : List (Nat × γ)} (h : Good s key q) :
    ∃ x, q = q.dropLast ++ [x] ∧ ∀ y ∈ q.dropLast, y.1 < x.1 := by
  refine ⟨q.getLast h.ne_nil, (dropLast_append_getLast h.ne_nil).symm, fun y hy => ?_⟩
  have hpair := h.pairwise
  rw [← dropLast_append_getLast h.ne_nil] at hpair
  exact (pairwise_append.1 hpair).2.2 y hy _ (mem_singleton_self _)

theorem Good.lt {key : PoolKey} {q : List (Nat × γ)} (h : Good s key q) {x : Nat × γ} (hx : x ∈ q) :
    x.1 < s.puts.length :=
  (List.getElem?_eq_some_iff.1 (h.put x hx)).1

theorem Good.sublist {key : PoolKey} {q r : List (Nat × γ)} (h : Good s key q)
    (hsub : r.Sublist q) (hne : r ≠ []) : Good s key r where
  ne_nil := hne
  length_le := Nat.le_trans hsub.length_le h.length_le
  pairwise := h.pairwise.sublist hsub
  put x hx := h.put x (hsub.subset hx)
  not_taken x hx := h.not_taken x (hsub.subset hx)
  cleared x hx := h.cleared x (hsub.subset hx)

theorem Inv.take (h : Inv s) (key : PoolKey) : Inv (s.step (.take key)) := by
  rcases take_cases key s.pool with ⟨htake, -⟩ | ⟨q, hlookup, hfst, hsnd⟩
  · have hsame : s.step (.take key) = s := by
      rw [step, htake]
      exact congrArg (fun t => { s with taken := t }) (append_nil s.taken)
    rw [hsame]
    exact h
  have hq : Good s key q := h.good _ (mem_of_lookup hlookup)
  obtain ⟨x, hconcat, hyoungest⟩ := hq.eq_concat
  have hmem : x ∈ q := by
    rw [hconcat]
    exact mem_append_right _ (mem_singleton_self x)
  have htaken : (s.step (.take key)).taken = s.taken ++ [x.1] := by
    show s.taken ++ _ = _
    rw [hfst, hconcat, getLast?_concat]
    rfl
  -- What stays in the pool has another number than what was taken.
  have hkeep {k : PoolKey} {r : List (Nat × γ)} (hr : Good s k r) (hx : ∀ y ∈ r, y.1 ≠ x.1) :
      Good (s.step (.take key)) k r := by
    refine ⟨hr.ne_nil, hr.length_le, hr.pairwise, hr.put, fun y hy hmem => ?_, hr.cleared⟩
    rw [htaken, mem_append, mem_singleton] at hmem
    exact hmem.elim (hr.not_taken y hy) (hx y hy)
  have hother {e : PoolKey × List (Nat × γ)} (he : e ∈ s.pool) (hne : e.1 ≠ key) :
      Good (s.step (.take key)) e.1 e.2 := by
    refine hkeep (h.good e he) fun y hy hyx => hne ?_
    have hput := (h.good e he).put y hy
    rw [hyx, hq.put x hmem] at hput
    exact (Prod.ext_iff.1 (Option.some.inj hput)).1.symm
  have hlt (n : Nat) (hn : n ∈ (s.step (.take key)).taken) : n < s.puts.length := by
    rw [htaken, mem_append, mem_singleton] at hn
    rcases hn with hn | rfl
    · exact h.taken_lt n hn
    · exact hq.lt hmem
  have hpool : (s.step (.take key)).pool = if q.dropLast.isEmpty then
      erase Prod.fst key s.pool else store key q.dropLast s.pool := hsnd
  by_cases hempty : q.dropLast.isEmpty
  · rw [if_pos hempty] at hpool
    refine ⟨?_, ?_, fun e he => ?_, hlt, h.cleared_le⟩
    · rw [hpool]
      exact distinct_erase h.distinct
    · rw [hpool]
      exact le_trans eraseP_sublist.length_le h.length_le
    · rw [hpool, mem_erase h.distinct] at he
      exact hother he.1 he.2
  rw [if_neg hempty] at hpool
  refine ⟨?_, ?_, fun e he => ?_, hlt, h.cleared_le⟩
  · rw [hpool]
    exact distinct_store h.distinct
  · rw [hpool, length_store, if_pos (mem_map_of_mem (mem_of_lookup hlookup))]
    exact h.length_le
  · rw [hpool, mem_store h.distinct] at he
    rcases he with rfl | ⟨he, hne⟩
    · exact hkeep (hq.sublist (dropLast_sublist q) fun hnil => hempty (isEmpty_iff.2 hnil))
        fun y hy => (hyoungest y hy).ne
    · exact hother he hne

theorem Inv.put (h : Inv s) (pick : Nat) (key : PoolKey) (conn : γ) :
    Inv (s.step (.put pick key conn)) := by
  have hsub := (evict_sublist pick key _).trans (filter_sublist (l := s.pool) (p := fun e => !e.2.isEmpty))
  generalize hp : evict pick key (s.pool.filter fun e => !e.2.isEmpty) = p at hsub
  have hdistinct : Keyed.Distinct Prod.fst p := h.distinct.sublist hsub
  have hle : p.length ≤ maxPoolKeys := le_trans hsub.length_le h.length_le
  have hroom (hkey : key ∉ p.map Prod.fst) : p.length < maxPoolKeys := by
    rw [← hp] at hkey ⊢
    exact length_evict (le_trans filter_sublist.length_le h.length_le) pick hkey
  -- The connections in the pool have numbers below that of the new one.
  have hkeep {k : PoolKey} {r : List (Nat × γ)} (hr : Good s k r) :
      Good (s.step (.put pick key conn)) k r := by
    refine ⟨hr.ne_nil, hr.length_le, hr.pairwise, fun x hx => ?_, hr.not_taken, hr.cleared⟩
    rw [← hr.put x hx]
    exact getElem?_append_left (hr.lt hx)
  generalize hold : (if maxIdlePerKey ≤ (bucket key p).length then (bucket key p).tail
    else bucket key p) = old
  have hpool : (s.step (.put pick key conn)).pool = store key (old ++ [(s.puts.length, conn)]) p := by
    rw [← hold, ← hp]
    rfl
  -- The bucket of the key has room for one connection, and its connections are those of the pool.
  have holdsub : old.Sublist (bucket key p) := by
    rw [← hold]
    split
    · exact tail_sublist _
    · exact List.Sublist.refl _
  have hbucket (hne : bucket key p ≠ []) : Good s key (bucket key p) :=
    h.good _ (hsub.subset (mem_of_bucket hne))
  have hgood (hne : old ≠ []) : Good s key old := by
    refine (hbucket fun hnil => hne ?_).sublist holdsub hne
    rw [hnil] at holdsub
    exact sublist_nil.1 holdsub
  have holdlen : old.length < maxIdlePerKey := by
    have hfits : (bucket key p).length ≤ maxIdlePerKey := by
      by_cases hnil : bucket key p = []
      · rw [hnil]
        exact Nat.zero_le _
      · exact (hbucket hnil).length_le
    rw [← hold]
    split
    · rw [length_tail]
      have hpos : 0 < maxIdlePerKey := by decide
      omega
    · omega
  have hnew : Good (s.step (.put pick key conn)) key (old ++ [(s.puts.length, conn)]) := by
    refine ⟨by simp, by rw [length_append]; exact holdlen, pairwise_append.2 ⟨?_,
      pairwise_singleton _ _, fun x hx => forall_mem_singleton.2 ((hgood (ne_nil_of_mem hx)).lt hx)⟩,
      forall_mem_append.2 ⟨fun x hx => (hkeep (hgood (ne_nil_of_mem hx))).put x hx,
        forall_mem_singleton.2 getElem?_concat_length⟩,
      forall_mem_append.2 ⟨fun x hx => (hgood (ne_nil_of_mem hx)).not_taken x hx,
        forall_mem_singleton.2 fun hmem => lt_irrefl _ (h.taken_lt _ hmem)⟩,
      forall_mem_append.2 ⟨fun x hx => (hgood (ne_nil_of_mem hx)).cleared x hx,
        forall_mem_singleton.2 h.cleared_le⟩⟩
    by_cases hnil : old = []
    · rw [hnil]
      exact .nil
    · exact (hgood hnil).pairwise
  have hputs : (s.step (.put pick key conn)).puts.length = s.puts.length + 1 :=
    length_append
  refine ⟨?_, ?_, fun e he => ?_, fun n hn => ?_, ?_⟩
  · rw [hpool]
    exact distinct_store hdistinct
  · rw [hpool, length_store]
    split_ifs with hkey
    · exact hle
    · exact hroom hkey
  · rw [hpool, mem_store hdistinct] at he
    rcases he with rfl | ⟨he, -⟩
    · exact hnew
    · exact hkeep (h.good e (hsub.subset he))
  · rw [hputs]
    exact Nat.lt_succ_of_lt (h.taken_lt n hn)
  · rw [hputs]
    exact Nat.le_succ_of_le h.cleared_le

theorem Inv.clear (h : Inv s) : Inv (s.step .clear) :=
  ⟨distinct_nil, Nat.zero_le _, by simp [step, Pool.clear], h.taken_lt, le_refl _⟩

theorem inv_run (ops : List (Op γ)) : Inv (run step (empty : Ledger γ) ops) := by
  refine run_induction inv_empty fun s op _ h => ?_
  cases op with
  | take key => exact h.take key
  | put pick key conn => exact h.put pick key conn
  | clear => exact h.clear

end Ledger

open Ledger

/-- After any operations: what `take` returns was put under the same key, has not been returned
    before, was not there when the pool was cleared, and is the connection in the pool that was put
    last under the key; there is none only when the pool has none under the key. No bucket is empty
    or has more than six connections, and there are at most 64 keys. -/
theorem pool_sound (ops : List (Op γ)) : let s := run step (empty : Ledger γ) ops
    (∀ key n conn, (take key s.pool).1 = some (n, conn) →
      s.puts[n]? = some (key, conn) ∧ n ∉ s.taken ∧ s.cleared ≤ n ∧
        (n, conn) ∈ bucket key s.pool ∧ ∀ x ∈ bucket key s.pool, x.1 ≤ n) ∧
    (∀ key, (take key s.pool).1 = none ↔ bucket key s.pool = []) ∧
    (∀ e ∈ s.pool, e.2 ≠ [] ∧ e.2.length ≤ 6) ∧
    (s.pool.map Prod.fst).Nodup ∧ s.pool.length ≤ 64 := by
  intro s
  have h : Ledger.Inv s := inv_run ops
  refine ⟨fun key n conn htake => ?_, fun key => by rw [fst_take, getLast?_eq_none_iff],
    fun e he => ⟨(h.good e he).ne_nil, (h.good e he).length_le⟩,
    h.distinct, h.length_le⟩
  rcases take_cases key s.pool with ⟨hnone, -⟩ | ⟨q, hlookup, hfst, -⟩
  · rw [hnone] at htake
    cases htake
  have hq : Ledger.Good s key q := h.good _ (mem_of_lookup hlookup)
  have hbucket : bucket key s.pool = q := by
    rw [bucket, hlookup]
    rfl
  obtain ⟨x, hconcat, hyoungest⟩ := hq.eq_concat
  have hx : x = (n, conn) := by
    rw [hfst, hconcat, getLast?_concat] at htake
    exact Option.some.inj htake
  subst hx
  have hmem : (n, conn) ∈ q := by
    rw [hconcat]
    exact mem_append_right _ (mem_singleton_self _)
  refine ⟨hq.put _ hmem, hq.not_taken _ hmem, hq.cleared _ hmem, hbucket ▸ hmem, fun y hy => ?_⟩
  rw [hbucket, hconcat, mem_append, mem_singleton] at hy
  rcases hy with hy | rfl
  · exact (hyoungest y hy).le
  · exact le_refl _

end ZeroProxy.Kernel.Pool
